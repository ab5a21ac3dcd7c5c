import Mathlib.Data.List.DropRight
import Mathlib.Data.List.Forall2
import Mathlib.Data.List.SplitBy

/-!
# Bounded buffers and segmented streams

* `Buffer.Vec` — a vector of fixed capacity without a heap: `push` hands the element back when there
  is no room, `remove` panics (`none`) when the index is out of range.
* `rtake_rtake_concat` — a buffer that drops its oldest element before each push into a full buffer
  holds the last elements of everything pushed.
* `exists_splitBy_concat`, `splitBy_concat` — a stream that is cut after certain elements, extended
  by one more element.
* `exists_segments`, `isChain_of_forall₂`, `isChain_of_segments` — a stream that matches a segmented
  one has the same segments, at the same distances.
-/

namespace Buffer

variable {α : Type*}

/-! ## Vectors of fixed capacity

A vector that never grows past its capacity: `push` hands the element back if there is no room. -/

/-- `heapless::Vec<α, n>`. -/
structure Vec (α : Type*) (n : Nat) where
  toList    : List α
  length_le : toList.length ≤ n
  deriving DecidableEq, Repr

namespace Vec

variable {n : Nat}

def empty : Vec α n where
  toList    := []
  length_le := Nat.zero_le n

def isFull (v : Vec α n) : Bool := v.toList.length == n

def isEmpty (v : Vec α n) : Bool := v.toList.isEmpty

/-- The element comes back if there is no room for it. -/
def push (v : Vec α n) (a : α) : Except α (Vec α n) :=
  if h : v.toList.length < n then
    .ok { toList := v.toList ++ [a], length_le := by rw [List.length_append]; exact h }
  else .error a

/-- The elements after the removed one move up. `none`: the index is out of range. -/
def remove (v : Vec α n) (i : Nat) : Option (α × Vec α n) :=
  match v.toList[i]? with
  | none   => none
  | some a => some (a, ⟨v.toList.eraseIdx i, (List.length_eraseIdx_le _ i).trans v.length_le⟩)

theorem push_eq_ok {v : Vec α n} (h : v.toList.length < n) (a : α) :
    ∃ w, v.push a = .ok w ∧ w.toList = v.toList ++ [a] := by
  unfold push
  rw [dif_pos h]
  exact ⟨_, rfl, rfl⟩

theorem remove_zero_eq_some {v : Vec α n} (h : v.toList ≠ []) :
    ∃ a w, v.remove 0 = some (a, w) ∧ v.toList = a :: w.toList := by
  obtain ⟨l, hl⟩ := v
  cases l with
  | nil => exact absurd rfl h
  | cons a rest => exact ⟨a, ⟨rest, _⟩, rfl, rfl⟩

end Vec

/-! ## The last elements of a list

What a buffer keeps that drops its oldest element when it is full. -/

theorem rtake_of_length_le {l : List α} {n : Nat} (h : l.length ≤ n) : l.rtake n = l := by
  rw [List.rtake, Nat.sub_eq_zero_of_le h, List.drop_zero]

theorem length_rtake (l : List α) (n : Nat) : (l.rtake n).length = min l.length n := by
  rw [List.rtake, List.length_drop]
  omega

/-- What is beyond the last `n` elements stays out of reach. -/
theorem rtake_rtake_concat (l : List α) (a : α) (n : Nat) :
    (l.rtake n ++ [a]).rtake n = (l ++ [a]).rtake n := by
  cases n with
  | zero => simp
  | succ n =>
      rw [List.rtake_concat_succ, List.rtake_concat_succ]
      congr 1
      simp only [List.rtake_eq_reverse_take_reverse, List.reverse_reverse, List.take_take]
      rw [Nat.min_eq_left (Nat.le_succ n)]

/-- A full buffer without its oldest element has room for a new one. -/
theorem rtake_cons_concat {l : List α} {n : Nat} (oldest a : α) (h : (oldest :: l).length = n) :
    (oldest :: l ++ [a]).rtake n = l ++ [a] := by
  rw [← h, List.length_cons, List.rtake_concat_succ, List.rtake, List.length_cons,
    Nat.add_sub_cancel_left, List.drop_one, List.tail_cons]

/-! ## Streams cut after certain elements

How a segmented stream grows by one element. -/

/-- One more element joins the last segment unless the stream is cut before it. -/
theorem splitBy_concat {r : α → α → Bool} {l : List α} {segments : List (List α)}
    {segment : List α} (h : l.splitBy r = segments ++ [segment]) {b : α}
    (hr : ∀ a ∈ l.getLast?, r a b = true) :
    (l ++ [b]).splitBy r = segments ++ [segment ++ [b]] := by
  obtain ⟨hflat, hne, hin, hcut⟩ := List.splitBy_eq_iff.mp h
  have hsegment : segment ≠ [] := by
    intro hnil
    apply hne
    simp [hnil]
  rw [List.splitBy_eq_iff]
  refine ⟨by simp [hflat], ?_, ?_, ?_⟩
  · intro hmem
    rcases List.mem_append.mp hmem with hmem | hmem
    · exact hne (List.mem_append_left _ hmem)
    · simp at hmem
  · intro m hm
    rcases List.mem_append.mp hm with hm | hm
    · exact hin m (List.mem_append_left _ hm)
    · rw [List.mem_singleton] at hm
      subst hm
      rw [List.isChain_append]
      refine ⟨hin segment (by simp), List.isChain_singleton b, ?_⟩
      intro a ha c hc
      cases hc
      apply hr
      rw [hflat, List.flatten_append, List.flatten_singleton,
        List.getLast?_append_of_ne_nil _ hsegment]
      exact ha
  · rw [List.isChain_append] at hcut ⊢
    refine ⟨hcut.1, List.isChain_singleton _, ?_⟩
    intro m hm c hc
    cases hc
    obtain ⟨hm', hs', hrel⟩ := hcut.2.2 m hm segment rfl
    refine ⟨hm', by simp, ?_⟩
    rwa [List.head_append_of_ne_nil hs']

/-- Where a stream is cut does not depend on its last element. -/
theorem exists_splitBy_concat (joined : α → Bool) (l : List α) :
    ∃ segments segment, ∀ b,
      (l ++ [b]).splitBy (fun a _ => joined a) = segments ++ [segment ++ [b]] := by
  cases hlast : l.getLast? with
  | none =>
      rw [List.getLast?_eq_none_iff] at hlast
      subst hlast
      exact ⟨[], [], fun b => rfl⟩
  | some a =>
      cases hjoined : joined a with
      | false =>
          refine ⟨l.splitBy fun a _ => joined a, [], fun b => ?_⟩
          rw [List.splitBy_append_cons]
          · rfl
          · intro x hx
            rw [hlast] at hx
            cases hx
            exact hjoined
      | true =>
          have hne : l.splitBy (fun a _ => joined a) ≠ [] := by
            rw [List.splitBy_ne_nil]
            intro hnil
            simp [hnil] at hlast
          refine ⟨_, _, fun b => splitBy_concat (List.dropLast_append_getLast hne).symm ?_⟩
          intro x hx
          rw [hlast] at hx
          cases hx
          exact hjoined

/-! ## Matching streams -/

section Matching

variable {β : Type*} {R : α → β → Prop}

/-- A stream that matches a segmented one can be segmented in the same way. -/
theorem exists_segments {segments : List (List α)} {m : List β}
    (h : List.Forall₂ R segments.flatten m) :
    ∃ segments' : List (List β), segments'.flatten = m ∧
      List.Forall₂ (List.Forall₂ R) segments segments' := by
  induction segments generalizing m with
  | nil =>
      cases h
      exact ⟨[], rfl, .nil⟩
  | cons segment segments ih =>
      rw [List.flatten_cons] at h
      have htake := List.forall₂_take segment.length h
      have hdrop := List.forall₂_drop segment.length h
      rw [List.take_left] at htake
      rw [List.drop_left] at hdrop
      obtain ⟨segments', hflatten, hsegments⟩ := ih hdrop
      refine ⟨m.take segment.length :: segments', ?_, .cons htake hsegments⟩
      rw [List.flatten_cons, hflatten, List.take_append_drop]

/-- Neighbours match neighbours. -/
theorem isChain_of_forall₂ {S : α → α → Prop} {T : β → β → Prop} {l : List α} {m : List β}
    (h : List.Forall₂ R l m) (hchain : l.IsChain S)
    (hrel : ∀ a b x y, R a x → R b y → S a b → T x y) : m.IsChain T := by
  induction h with
  | nil => exact List.isChain_nil
  | cons hax hrest ih =>
      cases hrest with
      | nil => exact List.isChain_singleton _
      | cons hby hrest =>
          rw [List.isChain_cons_cons] at hchain ⊢
          exact ⟨hrel _ _ _ _ hax hby hchain.1, ih hchain.2⟩

theorem exists_mem_of_forall₂ {l : List α} {m : List β} (h : List.Forall₂ R l m) {x : β}
    (hx : x ∈ m) : ∃ a ∈ l, R a x := by
  induction h with
  | nil => cases hx
  | cons hax _ ih =>
      rcases List.mem_cons.mp hx with rfl | hx
      · exact ⟨_, List.mem_cons_self, hax⟩
      · obtain ⟨a, ha, hR⟩ := ih hx
        exact ⟨a, List.mem_cons_of_mem _ ha, hR⟩

/-- What matching elements agree on is the same over the whole streams. -/
theorem map_eq_of_forall₂ {γ : Type*} {f : α → γ} {g : β → γ} {l : List α} {m : List β}
    (h : List.Forall₂ R l m) (hrel : ∀ a x, R a x → f a = g x) : l.map f = m.map g := by
  induction h with
  | nil => rfl
  | cons hax _ ih => rw [List.map_cons, List.map_cons, hrel _ _ hax, ih]

theorem exists_head?_of_forall₂ {l : List α} {m : List β} (h : List.Forall₂ R l m) {x : β}
    (hx : x ∈ m.head?) : ∃ a ∈ l.head?, R a x := by
  cases h with
  | nil => cases hx
  | cons hax _ =>
      cases hx
      exact ⟨_, rfl, hax⟩

theorem exists_getLast?_of_forall₂ {l : List α} {m : List β} (h : List.Forall₂ R l m) {x : β}
    (hx : x ∈ m.getLast?) : ∃ a ∈ l.getLast?, R a x := by
  rw [← List.head?_reverse] at hx ⊢
  exact exists_head?_of_forall₂ (List.rel_reverse h) hx

/-- Segments that are apart match segments that are apart. -/
theorem isChain_of_segments {S : α → α → Prop} {T : β → β → Prop} {segments : List (List α)}
    {segments' : List (List β)} (h : List.Forall₂ (List.Forall₂ R) segments segments')
    (hchain : segments.IsChain fun l l' => ∀ a ∈ l.getLast?, ∀ b ∈ l'.head?, S a b)
    (hrel : ∀ a b x y, R a x → R b y → S a b → T x y) :
    segments'.IsChain fun m m' => ∀ x ∈ m.getLast?, ∀ y ∈ m'.head?, T x y := by
  refine isChain_of_forall₂ h hchain ?_
  intro l l' m m' hm hm' hS x hx y hy
  obtain ⟨a, ha, hax⟩ := exists_getLast?_of_forall₂ hm hx
  obtain ⟨b, hb, hby⟩ := exists_head?_of_forall₂ hm' hy
  exact hrel a b x y hax hby (hS a ha b hb)

end Matching

end Buffer
