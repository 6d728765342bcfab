import Mathlib.Tactic
import Mathlib.Logic.Function.Basic

/-!
# Radix tables kept in frames of a store

A radix table of a fixed depth is a tree of tables.  Every table fills one
frame of a store, and an entry of a table is either absent, or links to the
frame of a table one level further down, or, in the tables of the last level,
carries a value.

A table is named by the indices that lead to it from the root, *the latest
index first*, so that the tables below `p` are the paths `i :: p`.

`Tree` says which tables and values there are, without a store.  `Held` says
that a store holds such a tree: every table has a frame of its own, and the
entries are those of the tree and absent everywhere else.  The two ways in
which a program changes such a structure, linking a fresh table and setting a
value, keep `Held`.

`lookup` walks from a table down and tests every entry; `follow` tests none.
-/

namespace Hvexec
namespace RadixTable

universe u

variable {F I E V : Type u}

/-- The walk that tests every entry: the frame it arrives at, or the indices that
were left when an entry was absent. -/
def lookup (found : E → Bool) (frame : E → F) (s : F → I → E) :
    F → List I → Except (List I) F
  | f, [] => .ok f
  | f, i :: is =>
      if found (s f i) then lookup found frame s (frame (s f i)) is else .error is

/-- The walk that tests no entry, from the table `f` on; `read e f i` reads an
entry into a variable that holds `e`, and the last entry read is returned. -/
def follow (read : E → F → I → E) (frame : E → F) : F → E → List I → E
  | _, e, [] => e
  | f, e, i :: is => follow read frame (frame (read e f i)) (read e f i) is

/-- Where the tested walk arrives, the blind one does too.  The two have to read the same
present entries in the frames of `P` only, and those that entries name are of that kind. -/
theorem follow_of_lookup {found : E → Bool} {frame : E → F} {s : F → I → E}
    {read : E → F → I → E} {P : F → Prop} (hframe : ∀ e, P (frame e))
    (hread : ∀ f e i, P f → found (s f i) = true → read e f i = s f i) :
    ∀ (is : List I) (f g : F) (e : E), P f → (is = [] → frame e = f) →
      lookup found frame s f is = .ok g → frame (follow read frame f e is) = g
  | [], f, g, e, _, he, h => by
      rw [lookup] at h
      rw [follow, he rfl]
      exact Except.ok.inj h
  | i :: is, f, g, e, hf, _, h => by
      rw [lookup] at h
      split_ifs at h with hfound
      rw [follow, hread f e i hf hfound]
      exact follow_of_lookup hframe hread is _ g _ (hframe _) (fun _ => rfl) h

/-- The tables and the values of a radix table, by path. -/
structure Tree (I F V : Type u) where
  node : List I → Option F
  leaf : List I → Option V

namespace Tree

variable [DecidableEq I]

/-- A table with no entry. -/
def rootOnly (root : F) : Tree I F V where
  node := fun p => if p = [] then some root else none
  leaf := fun _ => none

/-- A new table at path `q`, in frame `f`. -/
def addNode (T : Tree I F V) (q : List I) (f : F) : Tree I F V where
  node := Function.update T.node q (some f)
  leaf := T.leaf

/-- A value at path `q`. -/
def setLeaf (T : Tree I F V) (q : List I) (v : V) : Tree I F V where
  node := T.node
  leaf := Function.update T.leaf q (some v)

omit [DecidableEq I] in
/-- Every table of `T` is a table of `T'`. -/
def Extends (T' T : Tree I F V) : Prop :=
  ∀ p f, T.node p = some f → T'.node p = some f

omit [DecidableEq I] in
theorem Extends.refl (T : Tree I F V) : T.Extends T :=
  fun _ _ h => h

omit [DecidableEq I] in
theorem Extends.trans {T T' T'' : Tree I F V}
    (h' : T''.Extends T') (h : T'.Extends T) :
    T''.Extends T :=
  fun p f hp => h' p f (h p f hp)

@[simp] theorem addNode_leaf (T : Tree I F V) (q : List I) (f : F) :
    (T.addNode q f).leaf = T.leaf := by
  rfl

@[simp] theorem setLeaf_node (T : Tree I F V) (q : List I) (v : V) :
    (T.setLeaf q v).node = T.node := by
  rfl

theorem addNode_node_self (T : Tree I F V) (q : List I) (f : F) :
    (T.addNode q f).node q = some f := by
  simp [addNode]

theorem addNode_node_of_ne
    (T : Tree I F V) {q p : List I} (f : F) (h : p ≠ q) :
    (T.addNode q f).node p = T.node p := by
  simp [addNode, h]

theorem addNode_extends
    (T : Tree I F V) {q : List I} (f : F) (h : T.node q = none) :
    (T.addNode q f).Extends T := by
  intro p g hp
  have hne : p ≠ q := by
    rintro rfl
    rw [h] at hp
    simp at hp
  rw [addNode_node_of_ne T f hne]
  exact hp

theorem setLeaf_extends (T : Tree I F V) (q : List I) (v : V) :
    (T.setLeaf q v).Extends T :=
  fun _ _ h => h

omit [DecidableEq I] in
/-- Below every table, except for the root, there is a value. -/
def Pruned (T : Tree I F V) : Prop :=
  ∀ i p, (T.node (i :: p)).isSome → ∃ q, (T.leaf q).isSome ∧ (i :: p) <:+ q

omit [DecidableEq I] in
theorem pruned_rootOnly (root : F) : (rootOnly root : Tree I F V).Pruned := by
  intro i p hp
  simp [rootOnly] at hp

/-- A value was set, and tables on the way to it were added. -/
theorem Pruned.setLeaf {T T' : Tree I F V} (h : T.Pruned) {q : List I} {v : V}
    (hnode : ∀ p, (T'.node p).isSome → (T.node p).isSome ∨ p <:+ q)
    (hleaf : T'.leaf = Function.update T.leaf q (some v)) :
    T'.Pruned := by
  have hset : (T'.leaf q).isSome := by
    rw [hleaf, Function.update_self]
    rfl
  intro i p hp
  rcases hnode _ hp with hold | hpath
  · obtain ⟨r, hr, hsuffix⟩ := h i p hold
    refine ⟨r, ?_, hsuffix⟩
    by_cases hrq : r = q
    · rw [hrq]
      exact hset
    · rw [hleaf, Function.update_of_ne hrq]
      exact hr
  · exact ⟨q, hset, hpath⟩

end Tree

/-- The store `s` holds the tree `T` from the frame `root` on; the tables at
paths of length `depth` are those of the last level. -/
structure Held
    (depth : Nat)
    (absent : E) (link : F → E) (val : V → E)
    (root : F) (s : F → I → E)
    (T : Tree I F V) : Prop where
  root_node : T.node [] = some root
  parent : ∀ i p f, T.node (i :: p) = some f → ∃ g, T.node p = some g
  short : ∀ p f, T.node p = some f → p.length ≤ depth
  inj : ∀ p q f, T.node p = some f → T.node q = some f → p = q
  inner : ∀ p f, T.node p = some f → p.length < depth →
    ∀ i, s f i = (T.node (i :: p)).elim absent link
  last : ∀ p f, T.node p = some f → p.length = depth →
    ∀ i, s f i = (T.leaf (i :: p)).elim absent val
  leaf_parent : ∀ q v, T.leaf q = some v →
    ∃ i p f, q = i :: p ∧ T.node p = some f ∧ p.length = depth

section Held

variable {depth : Nat} {absent : E} {link : F → E} {val : V → E}
variable {root : F} {s s' : F → I → E} {T : Tree I F V}

/-- Only the entries of the tree's own tables matter. -/
theorem Held.congr
    (h : Held depth absent link val root s T)
    (heq : ∀ p f, T.node p = some f → ∀ i, s' f i = s f i) :
    Held depth absent link val root s' T where
  root_node := h.root_node
  parent := h.parent
  short := h.short
  inj := h.inj
  inner := by
    intro p f hp hlen i
    rw [heq p f hp i]
    exact h.inner p f hp hlen i
  last := by
    intro p f hp hlen i
    rw [heq p f hp i]
    exact h.last p f hp hlen i
  leaf_parent := h.leaf_parent

/-- The tables above a table are there. -/
theorem Held.parent_append
    (h : Held depth absent link val root s T) :
    ∀ (q p : List I) (f : F), T.node (q ++ p) = some f → ∃ g, T.node p = some g
  | [], _, f, hf => ⟨f, hf⟩
  | i :: q, p, f, hf => by
      obtain ⟨g, hg⟩ := h.parent i (q ++ p) f hf
      exact h.parent_append q p g hg

/-- A root table without entries holds the tree with nothing in it. -/
theorem held_rootOnly [DecidableEq I]
    (hempty : ∀ i, s root i = absent) :
    Held depth absent link val root s (Tree.rootOnly root) where
  root_node := by
    simp [Tree.rootOnly]
  parent := by
    intro i p f hp
    simp [Tree.rootOnly] at hp
  short := by
    intro p f hp
    have hnil : p = [] := by
      by_contra hne
      simp [Tree.rootOnly, hne] at hp
    simp [hnil]
  inj := by
    intro p q f hp hq
    simp only [Tree.rootOnly] at hp hq
    split_ifs at hp hq with h1 h2
    rw [h1, h2]
  inner := by
    intro p f hp _ i
    simp only [Tree.rootOnly] at hp ⊢
    split_ifs at hp
    have hf : root = f := Option.some.inj hp
    rw [← hf, hempty]
    simp
  last := by
    intro p f hp _ i
    simp only [Tree.rootOnly] at hp ⊢
    split_ifs at hp
    have hf : root = f := Option.some.inj hp
    rw [← hf, hempty]
    simp
  leaf_parent := by
    intro q v hq
    simp [Tree.rootOnly] at hq

/-- **Linking a fresh table.**  The parent's entry becomes a link to a frame
that no table uses and whose entries are all absent. -/
theorem Held.addNode [DecidableEq I]
    (h : Held depth absent link val root s T)
    {p : List I} {f f' : F} {i : I}
    (hp : T.node p = some f) (hlen : p.length < depth)
    (hnone : T.node (i :: p) = none)
    (hfresh : ∀ q, T.node q ≠ some f')
    (hempty : ∀ j, s' f' j = absent)
    (hlink : s' f i = link f')
    (hframe : ∀ q g j, T.node q = some g → (q ≠ p ∨ j ≠ i) → s' g j = s g j) :
    Held depth absent link val root s' (T.addNode (i :: p) f') where
  root_node := by
    rw [T.addNode_node_of_ne f' (by simp)]
    exact h.root_node
  parent := by
    intro j q g hq
    by_cases hjq : j :: q = i :: p
    · have hqp : q = p := (List.cons.inj hjq).2
      have hne : p ≠ i :: p := by
        intro hcon
        have := congrArg List.length hcon
        simp at this
      exact ⟨f, by rw [hqp, T.addNode_node_of_ne f' hne]; exact hp⟩
    · rw [T.addNode_node_of_ne f' hjq] at hq
      obtain ⟨g', hg'⟩ := h.parent j q g hq
      exact ⟨g', T.addNode_extends f' hnone q g' hg'⟩
  short := by
    intro q g hq
    by_cases hqp : q = i :: p
    · subst q
      simpa using hlen
    · rw [T.addNode_node_of_ne f' hqp] at hq
      exact h.short q g hq
  inj := by
    intro q r g hq hr
    by_cases hqp : q = i :: p <;> by_cases hrp : r = i :: p
    · rw [hqp, hrp]
    · subst q
      rw [T.addNode_node_self] at hq
      rw [T.addNode_node_of_ne f' hrp, ← hq] at hr
      exact absurd hr (hfresh r)
    · subst r
      rw [T.addNode_node_self] at hr
      rw [T.addNode_node_of_ne f' hqp, ← hr] at hq
      exact absurd hq (hfresh q)
    · rw [T.addNode_node_of_ne f' hqp] at hq
      rw [T.addNode_node_of_ne f' hrp] at hr
      exact h.inj q r g hq hr
  inner := by
    intro q g hq hqlen j
    by_cases hqp : q = i :: p
    · -- the fresh table itself: nothing below it yet
      subst q
      rw [T.addNode_node_self] at hq
      have hg : f' = g := Option.some.inj hq
      have hnone' : T.node (j :: i :: p) = none := by
        cases hn : T.node (j :: i :: p) with
        | none => rfl
        | some k =>
            obtain ⟨g', hg'⟩ := h.parent j (i :: p) k hn
            rw [hnone] at hg'
            simp at hg'
      rw [T.addNode_node_of_ne f' (by simp), hnone', ← hg, hempty]
      rfl
    · rw [T.addNode_node_of_ne f' hqp] at hq
      by_cases hjq : q = p ∧ j = i
      · obtain ⟨rfl, rfl⟩ := hjq
        have hg : f = g := Option.some.inj (hp.symm.trans hq)
        rw [T.addNode_node_self, ← hg, hlink]
        rfl
      · have hne : j :: q ≠ i :: p := by
          intro hcon
          exact hjq ⟨(List.cons.inj hcon).2, (List.cons.inj hcon).1⟩
        have hor : q ≠ p ∨ j ≠ i := by
          by_contra hcon
          push Not at hcon
          exact hjq hcon
        rw [T.addNode_node_of_ne f' hne, hframe q g j hq hor]
        exact h.inner q g hq hqlen j
  last := by
    intro q g hq hqlen j
    by_cases hqp : q = i :: p
    · subst q
      rw [T.addNode_node_self] at hq
      have hg : f' = g := Option.some.inj hq
      have hnone' : T.leaf (j :: i :: p) = none := by
        cases hn : T.leaf (j :: i :: p) with
        | none => rfl
        | some v =>
            obtain ⟨_, r, g', hr, hg', _⟩ := h.leaf_parent _ v hn
            have hrp : i :: p = r := (List.cons.inj hr).2
            rw [← hrp, hnone] at hg'
            simp at hg'
      rw [T.addNode_leaf, hnone', ← hg, hempty]
      rfl
    · rw [T.addNode_node_of_ne f' hqp] at hq
      have hne : q ≠ p := by
        rintro rfl
        omega
      rw [T.addNode_leaf, hframe q g j hq (Or.inl hne)]
      exact h.last q g hq hqlen j
  leaf_parent := by
    intro q v hq
    obtain ⟨j, r, g, hr, hg, hrlen⟩ := h.leaf_parent q v hq
    exact ⟨j, r, g, hr, T.addNode_extends f' hnone r g hg, hrlen⟩

/-- **Setting a value** in a table of the last level. -/
theorem Held.setLeaf [DecidableEq I]
    (h : Held depth absent link val root s T)
    {p : List I} {f : F} {i : I} {v : V}
    (hp : T.node p = some f) (hlen : p.length = depth)
    (hval : s' f i = val v)
    (hframe : ∀ q g j, T.node q = some g → (q ≠ p ∨ j ≠ i) → s' g j = s g j) :
    Held depth absent link val root s' (T.setLeaf (i :: p) v) where
  root_node := h.root_node
  parent := h.parent
  short := h.short
  inj := h.inj
  inner := by
    intro q g hq hqlen j
    have hne : q ≠ p := by
      rintro rfl
      omega
    rw [hframe q g j hq (Or.inl hne)]
    exact h.inner q g hq hqlen j
  last := by
    intro q g hq hqlen j
    by_cases hjq : q = p ∧ j = i
    · obtain ⟨rfl, rfl⟩ := hjq
      have hg : f = g := Option.some.inj (hp.symm.trans hq)
      rw [← hg, hval]
      simp [Tree.setLeaf]
    · have hne : j :: q ≠ i :: p := by
        intro hcon
        exact hjq ⟨(List.cons.inj hcon).2, (List.cons.inj hcon).1⟩
      have hor : q ≠ p ∨ j ≠ i := by
        by_contra hcon
        push Not at hcon
        exact hjq hcon
      rw [hframe q g j hq hor, h.last q g hq hqlen j]
      simp [Tree.setLeaf, Function.update_of_ne hne]
  leaf_parent := by
    intro q w hq
    by_cases hqp : q = i :: p
    · exact ⟨i, p, f, hqp, hp, hlen⟩
    · simp only [Tree.setLeaf, Function.update_of_ne hqp] at hq
      exact h.leaf_parent q w hq

/-! ### Two walks through a tree that the store holds -/

variable {found : E → Bool} {frame : E → F} {read : E → F → I → E}

/-- The tested walk passes through the tables that the tree names. -/
theorem Held.lookup_append
    (h : Held depth absent link val root s T)
    (hframe : ∀ p f, T.node p = some f → frame (link f) = f)
    (hlink : ∀ f, found (link f) = true)
    (is : List I) :
    ∀ (done p : List I) (f g : F), T.node p = some f →
      T.node (done.reverse ++ p) = some g →
      lookup found frame s f (done ++ is) = lookup found frame s g is
  | [], p, f, g, hf, hg => by
      obtain rfl : f = g := Option.some.inj (hf.symm.trans hg)
      rfl
  | i :: done, p, f, g, hf, hg => by
      rw [List.reverse_cons, List.append_assoc] at hg
      obtain ⟨f', hf'⟩ := h.parent_append done.reverse (i :: p) g hg
      have hlen : p.length < depth := by
        have := h.short (i :: p) f' hf'
        simpa using this
      have hentry : s f i = link f' := by
        rw [h.inner p f hf hlen i, hf']
        rfl
      rw [List.cons_append, lookup, hentry, if_pos (hlink f'), hframe _ f' hf']
      exact h.lookup_append hframe hlink is done (i :: p) f' g hf' hg

/-- The tested walk finds what the tree maps. -/
theorem Held.lookup_of_leaf
    (h : Held depth absent link val root s T)
    (hframe : ∀ p f, T.node p = some f → frame (link f) = f)
    (hlink : ∀ f, found (link f) = true) (hval : ∀ v, found (val v) = true)
    {is : List I} {v : V} (hv : T.leaf is.reverse = some v) :
    lookup found frame s root is = .ok (frame (val v)) := by
  obtain ⟨i, p, f, heq, hf, hlen⟩ := h.leaf_parent _ v hv
  have his : is = p.reverse ++ [i] := by
    rw [← List.reverse_reverse is, heq, List.reverse_cons]
  have hentry : s f i = val v := by
    rw [h.last p f hf hlen i, ← heq, hv]
    rfl
  rw [his, h.lookup_append hframe hlink [i] p.reverse [] root f h.root_node
    (by rw [List.reverse_reverse, List.append_nil, hf])]
  simp only [lookup, hentry, hval v, if_true]

/-- The tested walk stops where the tree has no value. -/
theorem Held.lookup_of_no_value
    (h : Held depth absent link val root s T)
    (hframe : ∀ p f, T.node p = some f → frame (link f) = f)
    (hlink : ∀ f, found (link f) = true) (habsent : found absent = false) :
    ∀ (is p : List I) (f : F), T.node p = some f → p.length + is.length = depth + 1 →
      T.leaf (is.reverse ++ p) = none → ∃ rest, lookup found frame s f is = .error rest
  | [], p, f, hf, hlen, _ => by
      have := h.short p f hf
      simp only [List.length_nil] at hlen
      omega
  | i :: is, p, f, hf, hlen, hleaf => by
      rw [List.length_cons] at hlen
      rw [List.reverse_cons, List.append_assoc] at hleaf
      have hshort := h.short p f hf
      rw [lookup]
      rcases Nat.lt_or_ge p.length depth with hlt | hge
      · rw [h.inner p f hf hlt i]
        cases hnode : T.node (i :: p) with
        | none =>
            exact ⟨is, by simp [habsent]⟩
        | some f' =>
            simp only [Option.elim_some, hlink f', if_true, hframe _ f' hnode]
            exact h.lookup_of_no_value hframe hlink habsent is (i :: p) f' hnode
              (by rw [List.length_cons]; omega) hleaf
      · obtain rfl : is = [] := List.eq_nil_of_length_eq_zero (by omega)
        have hnone : T.leaf (i :: p) = none := hleaf
        rw [h.last p f hf (by omega) i, hnone]
        exact ⟨[], by simp [habsent]⟩

/-- The blind walk agrees with the tested one up to the first absent entry; from
there on it follows the absent entry as if it were a link. -/
theorem Held.follow_eq_lookup
    (h : Held depth absent link val root s T)
    (hframe : ∀ p f, T.node p = some f → frame (link f) = f)
    (hlink : ∀ f, found (link f) = true) (hval : ∀ v, found (val v) = true)
    (habsent : found absent = false)
    (hread : ∀ p f, T.node p = some f → ∀ e i, read e f i = s f i) :
    ∀ (is p : List I) (f : F) (e : E), T.node p = some f →
      p.length + is.length = depth + 1 →
      match lookup found frame s f is with
      | .ok g => frame (follow read frame f e is) = g
      | .error rest =>
          follow read frame f e is = follow read frame (frame absent) absent rest
  | [], p, f, e, hf, hlen => by
      have := h.short p f hf
      simp only [List.length_nil] at hlen
      omega
  | i :: is, p, f, e, hf, hlen => by
      rw [List.length_cons] at hlen
      have hshort := h.short p f hf
      rw [lookup, follow, hread p f hf e i]
      rcases Nat.lt_or_ge p.length depth with hlt | hge
      · rw [h.inner p f hf hlt i]
        cases hnode : T.node (i :: p) with
        | none =>
            simp [habsent]
        | some f' =>
            simp only [Option.elim_some, hlink f', if_true, hframe _ f' hnode]
            exact h.follow_eq_lookup hframe hlink hval habsent hread is (i :: p) f'
              (link f') hnode (by rw [List.length_cons]; omega)
      · -- the last level: the indices end here
        obtain rfl : is = [] := List.eq_nil_of_length_eq_zero (by omega)
        rw [h.last p f hf (by omega) i]
        cases T.leaf (i :: p) with
        | none =>
            simp [habsent]
        | some v =>
            simp [hval v, lookup, follow]

end Held

end RadixTable
end Hvexec
