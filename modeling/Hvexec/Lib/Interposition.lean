import Mathlib.Tactic

/-!
# Interposition on calls to a host

Requests to a host pass through a hook, where one is installed.  The hook either
answers a request itself or passes it on, and only then the host is called.

`interpose` is one request, with the calls it makes.  `Mediated` says of the calls
of a whole run that no host call got around a hook: the trace is made of blocks,
one a request, each a host call without a hook, a hook that answers, or a hook
that passes on followed by the host call for the same request.
-/

namespace Hvexec
namespace Interposition

universe u v

/-- A call of a hook or of the host.  A hook that passes the request on has no
answer of its own. -/
inductive Call (R : Type u) (A : R → Type v) where
  | hook (r : R) (answer : Option (A r))
  | host (r : R) (result : A r)

namespace Call

variable {R : Type u} {A : R → Type v}

/-- The request of a call. -/
def request : Call R A → R
  | hook r _ => r
  | host r _ => r

def isHost : Call R A → Bool
  | hook _ _ => false
  | host _ _ => true

end Call

variable {R : Type u} {A : R → Type v}

/-- One request: its result and the calls made for it. -/
def interpose
    (hooked : R → Bool) (hook : (r : R) → Option (A r)) (host : (r : R) → A r) (r : R) :
    A r × List (Call R A) :=
  if hooked r then
    match hook r with
    | some a => (a, [.hook r (some a)])
    | none => (host r, [.hook r none, .host r (host r)])
  else (host r, [.host r (host r)])

/-- No host call of the trace got around a hook. -/
inductive Mediated (hooked : R → Bool) : List (Call R A) → Prop
  | nil :
      Mediated hooked []
  | free
      {t : List (Call R A)} {r : R} (a : A r)
      (hr : hooked r = false) (ht : Mediated hooked t) :
      Mediated hooked (.host r a :: t)
  | answered
      {t : List (Call R A)} {r : R} (a : A r)
      (hr : hooked r = true) (ht : Mediated hooked t) :
      Mediated hooked (.hook r (some a) :: t)
  | passed
      {t : List (Call R A)} {r : R} (a : A r)
      (hr : hooked r = true) (ht : Mediated hooked t) :
      Mediated hooked (.hook r none :: .host r a :: t)

section Interpose

variable {hooked : R → Bool} {hook : (r : R) → Option (A r)} {host : (r : R) → A r} {r : R}

/-- The block of one request. -/
theorem mediated_interpose :
    Mediated hooked (interpose hooked hook host r).2 := by
  unfold interpose
  split_ifs with hr
  · cases hook r with
    | some a =>
        exact .answered a hr .nil
    | none =>
        exact .passed (host r) hr .nil
  · exact .free (host r) (Bool.eq_false_iff.mpr hr) .nil

/-- The hook is asked first, and the host exactly when it does not answer. -/
theorem interpose_calls :
    (interpose hooked hook host r).2 =
      (if hooked r then [.hook r (hook r)] else []) ++
        if hooked r = false ∨ hook r = none then [.host r (host r)] else [] := by
  unfold interpose
  cases hooked r with
  | false => simp
  | true =>
      cases hook r with
      | some a => simp
      | none => simp

/-- The result is the hook's answer, where it has one. -/
theorem interpose_result :
    (interpose hooked hook host r).1 =
      if hooked r then (hook r).getD (host r) else host r := by
  unfold interpose
  cases hooked r with
  | false => simp
  | true =>
      cases hook r with
      | some a => simp
      | none => simp

/-- Every call made for a request is about this request, and the host is called
at most once. -/
theorem interpose_requests :
    (∀ c ∈ (interpose hooked hook host r).2, c.request = r) ∧
      (interpose hooked hook host r).2.countP Call.isHost ≤ 1 := by
  rw [interpose_calls]
  split_ifs <;> simp [Call.request, Call.isHost]

/-- Some call is made. -/
theorem exists_mem_interpose :
    ∃ c, c ∈ (interpose hooked hook host r).2 := by
  unfold interpose
  split_ifs
  · cases hook r with
    | some a => exact ⟨_, List.mem_singleton_self _⟩
    | none => exact ⟨_, List.mem_cons_self⟩
  · exact ⟨_, List.mem_singleton_self _⟩

end Interpose

/-- Blocks in a row are mediated when each is. -/
theorem Mediated.append {hooked : R → Bool} {t t' : List (Call R A)}
    (h : Mediated hooked t) (h' : Mediated hooked t') :
    Mediated hooked (t ++ t') := by
  induction h with
  | nil => exact h'
  | free a hr _ ih => exact .free a hr ih
  | answered a hr _ ih => exact .answered a hr ih
  | passed a hr _ ih => exact .passed a hr ih

theorem Mediated.flatMap {ι : Type*} {hooked : R → Bool} {calls : ι → List (Call R A)} :
    ∀ {l : List ι}, (∀ x ∈ l, Mediated hooked (calls x)) →
      Mediated hooked (l.flatMap calls)
  | [], _ => .nil
  | x :: l, h => by
      rw [List.flatMap_cons]
      exact (h x (by simp)).append
        (Mediated.flatMap fun y hy => h y (List.mem_cons_of_mem x hy))

end Interposition
end Hvexec
