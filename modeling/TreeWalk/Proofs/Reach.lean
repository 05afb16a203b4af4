import Mathlib.Data.List.Nodup
import Mathlib.Logic.Relation
import TreeWalk.Graph

/-!
Ways down in a graph. A node reaches another one if some way leads down to it; a way is told apart from
others by its address, the child positions it takes. A root from which no node is reached that lies
below itself has no cycle under it, whatever the rest of the graph looks like.
-/

namespace TreeWalk.Graph

variable {α : Type} {G : Graph α}

/-- The second node stands in the child list of the first. -/
def Child (G : Graph α) (n c : G.Node) : Prop := c ∈ G.children n

/-- A way leads down from the first node to the second, perhaps without a step. -/
def Reaches (G : Graph α) : G.Node → G.Node → Prop := Relation.ReflTransGen G.Child

/-- A way with at least one step leads down from the first node to the second. -/
def LiesAbove (G : Graph α) : G.Node → G.Node → Prop := Relation.TransGen G.Child

/-- No cycle is reached from the root. -/
def AcyclicFrom (G : Graph α) (root : G.Node) : Prop := ∀ n, G.Reaches root n → ¬G.LiesAbove n n

/-- The node that an address leads to, if the address stays within the child lists. -/
def follow (G : Graph α) (n : G.Node) : List Nat → Option G.Node
  | [] => some n
  | i :: address => (G.children n)[i]?.bind fun c => G.follow c address

theorem Reaches.child {root n c : G.Node} (h : G.Reaches root n) (hc : c ∈ G.children n) :
    G.Reaches root c :=
  Relation.ReflTransGen.tail h hc

theorem AcyclicFrom.of_reaches {root n : G.Node} (h : G.AcyclicFrom root) (hn : G.Reaches root n) :
    G.AcyclicFrom n :=
  fun m hm => h m (hn.trans hm)

theorem AcyclicFrom.child {n c : G.Node} (h : G.AcyclicFrom n) (hc : c ∈ G.children n) : G.AcyclicFrom c :=
  h.of_reaches (Relation.ReflTransGen.single hc)

/-- A graph whose children have greater numbers than their parents has no cycle. -/
theorem acyclicFrom_of_lt (h : ∀ n, ∀ c ∈ G.children n, n < c) (root : G.Node) :
    G.AcyclicFrom root := by
  have hlt : ∀ {n m}, G.LiesAbove n m → n < m := by
    intro n m hnm
    induction hnm with
    | single hc => exact h _ _ hc
    | tail _ hc ih => exact Fin.lt_trans ih (h _ _ hc)
  intro n _ hcycle
  exact absurd (hlt hcycle) (Nat.lt_irrefl n)

theorem follow_append (n : G.Node) (front back : List Nat) :
    G.follow n (front ++ back) = (G.follow n front).bind fun m => G.follow m back := by
  induction front generalizing n with
  | nil => rfl
  | cons i front ih =>
      simp only [List.cons_append, follow, Option.bind_assoc]
      exact congrArg _ (funext fun c => ih c)

/-- The last step of a way. -/
theorem follow_append_singleton {n m : G.Node} {front : List Nat} {i : Nat} :
    G.follow n (front ++ [i]) = some m ↔
      ∃ p, G.follow n front = some p ∧ (G.children p)[i]? = some m := by
  rw [follow_append, Option.bind_eq_some_iff]
  simp [follow]

theorem reaches_of_follow {root n : G.Node} {address : List Nat}
    (h : G.follow root address = some n) : G.Reaches root n := by
  induction address generalizing root with
  | nil =>
      cases h
      exact Relation.ReflTransGen.refl
  | cons i address ih =>
      obtain ⟨c, hc, hrest⟩ := Option.bind_eq_some_iff.mp h
      exact Relation.ReflTransGen.head (List.mem_of_getElem? hc) (ih hrest)

/-! ### Ways by their nodes -/

/-- A way from the root down to a node, as the list of its nodes with both ends. -/
inductive IsPath (G : Graph α) (root : G.Node) : G.Node → List G.Node → Prop
  | root : IsPath G root root [root]
  | step {m c : G.Node} {path : List G.Node} (way : IsPath G root m path) (child : c ∈ G.children m) :
      IsPath G root c (path ++ [c])

theorem Reaches.exists_isPath {root n : G.Node} (h : G.Reaches root n) : ∃ path, G.IsPath root n path := by
  induction h with
  | refl => exact ⟨[root], .root⟩
  | tail _ hc ih =>
      obtain ⟨path, hpath⟩ := ih
      exact ⟨_, hpath.step hc⟩

namespace IsPath

variable {root n : G.Node} {path : List G.Node}

theorem reaches (h : G.IsPath root n path) : G.Reaches root n := by
  induction h with
  | root => exact Relation.ReflTransGen.refl
  | step _ hc ih => exact ih.child hc

theorem ne_nil (h : G.IsPath root n path) : path ≠ [] := by
  cases h with
  | root => exact List.cons_ne_nil root []
  | step _ _ => exact List.concat_ne_nil _ _

theorem reaches_of_mem (h : G.IsPath root n path) {m : G.Node} (hm : m ∈ path) : G.Reaches m n := by
  induction h with
  | root =>
      rw [List.mem_singleton.mp hm]
      exact Relation.ReflTransGen.refl
  | step _ hc ih =>
      rcases List.mem_append.mp hm with hm | hm
      · exact (ih hm).child hc
      · rw [List.mem_singleton.mp hm]
        exact Relation.ReflTransGen.refl

/-- Where there is no cycle, no node stands twice on a way. -/
theorem nodup (h : G.IsPath root n path) (hacyclic : G.AcyclicFrom root) : path.Nodup := by
  induction h with
  | root => exact List.nodup_singleton root
  | @step m c path hway hc ih =>
      refine ih.append (List.nodup_singleton c) (List.disjoint_singleton.mpr fun hmem => ?_)
      exact hacyclic c (hway.reaches.child hc) (Relation.TransGen.tail' (hway.reaches_of_mem hmem) hc)

end IsPath

end TreeWalk.Graph
