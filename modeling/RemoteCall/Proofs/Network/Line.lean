import Mathlib.Data.List.Nodup
/-!
# Lines

A line is joined at its end, and left at any place: by those who are served, and by those who give up. `Line` is
its history, with all who ever joined it. `Tracks` says of a queue that it is what such a line has come to, if it
serves the first of those who wait, and may hold some who gave up; the main results are that it stays so when someone
joins, is served or leaves.
-/

namespace RemoteCall

/-- The history of a line. -/
structure Line where
  /-- Those who joined, in order. -/
  joined : List Nat
  /-- Those who were served, in the order in which they were. -/
  served : List Nat
  /-- Those who gave up. -/
  left : List Nat
deriving DecidableEq, Repr

namespace Line

def empty : Line := ⟨[], [], []⟩

def join (l : Line) (t : Nat) : Line := { l with joined := l.joined ++ [t] }

def serve (l : Line) (t : Nat) : Line := { l with served := l.served ++ [t] }

/-- Only who joined a line can leave it. -/
def leave (l : Line) (t : Nat) : Line := if t ∈ l.joined then { l with left := l.left ++ [t] } else l

/-- Who was served or gave up does not wait any more. -/
def Over (l : Line) (t : Nat) : Prop := t ∈ l.served ∨ t ∈ l.left

def Waits (l : Line) (t : Nat) : Prop := t ∈ l.joined ∧ ¬l.Over t

/-- Among those who wait, the one who joined first. -/
def IsFirst (l : Line) (t : Nat) : Prop :=
  ∃ ahead behind, l.joined = ahead ++ t :: behind ∧ (∀ s ∈ ahead, l.Over s) ∧ ¬l.Over t

/-- Those who were served were so in the order in which they joined, and nobody was while someone waited ahead. -/
def ServedInOrder (l : Line) : Prop :=
  l.served.Sublist l.joined ∧
    ∀ ahead t behind, l.joined = ahead ++ t :: behind → t ∈ l.served → ∀ s ∈ ahead, l.Over s

variable {l : Line} {s t : Nat}

theorem IsFirst.waits (h : l.IsFirst t) : l.Waits t := by
  obtain ⟨ahead, behind, hjoined, -, hover⟩ := h
  refine ⟨?_, hover⟩
  rw [hjoined]
  exact List.mem_append_right _ List.mem_cons_self

theorem IsFirst.unique (hs : l.IsFirst s) (ht : l.IsFirst t) : s = t := by
  obtain ⟨ahead, behind, hjoined, hahead, hover⟩ := hs
  obtain ⟨ahead', behind', hjoined', hahead', hover'⟩ := ht
  rw [hjoined] at hjoined'
  -- whoever stands ahead of the other one does not wait
  rcases List.append_eq_append_iff.1 hjoined' with ⟨between, hsplit, hrest⟩ | ⟨between, hsplit, hrest⟩
  · cases between with
    | nil => exact (List.cons.inj hrest).1
    | cons u between =>
      obtain ⟨rfl, -⟩ := List.cons.inj hrest
      refine absurd (hahead' s ?_) hover
      rw [hsplit]
      exact List.mem_append_right _ List.mem_cons_self
  · cases between with
    | nil => exact (List.cons.inj hrest).1.symm
    | cons u between =>
      obtain ⟨rfl, -⟩ := List.cons.inj hrest
      refine absurd (hahead t ?_) hover'
      rw [hsplit]
      exact List.mem_append_right _ List.mem_cons_self

theorem over_serve : (l.serve t).Over s ↔ l.Over s ∨ s = t := by
  simp only [Over, serve, List.mem_append, List.mem_singleton]
  rw [or_right_comm]

theorem over_leave (ht : t ∈ l.joined) : (l.leave t).Over s ↔ l.Over s ∨ s = t := by
  simp only [Over, leave, if_pos ht, List.mem_append, List.mem_singleton]
  rw [or_assoc]

theorem waits_serve : (l.serve t).Waits s ↔ l.Waits s ∧ s ≠ t := by
  unfold Waits
  rw [over_serve, not_or, and_assoc]
  exact Iff.rfl

theorem joined_leave (l : Line) (t : Nat) : (l.leave t).joined = l.joined := by
  unfold leave
  split <;> rfl

theorem served_leave (l : Line) (t : Nat) : (l.leave t).served = l.served := by
  unfold leave
  split <;> rfl

theorem waits_leave : (l.leave t).Waits s ↔ l.Waits s ∧ s ≠ t := by
  by_cases ht : t ∈ l.joined
  · unfold Waits
    rw [joined_leave, over_leave ht, not_or, and_assoc]
  · -- nobody leaves, and whoever waits is another one
    rw [leave, if_neg ht]
    refine (and_iff_left_of_imp fun hs => ?_).symm
    rintro rfl
    exact ht hs.1

/-- A queue holds those who wait in a line, in the order of the line. All who stood in the line before it are over,
and so may be some who are in it. -/
structure Tracks (l : Line) (queue : List Nat) : Prop where
  nodup : l.joined.Nodup
  known : ∀ t, l.Over t → t ∈ l.joined
  holds : ∀ t, l.Waits t → t ∈ queue
  passed : ∃ ahead behind, l.joined = ahead ++ behind ∧ l.served.Sublist ahead ∧ (∀ t ∈ ahead, l.Over t) ∧
    queue.Sublist behind

namespace Tracks

variable {queue queue' gone rest : List Nat}

theorem empty : Line.empty.Tracks [] where
  nodup := List.nodup_nil
  known t ht := by rcases ht with ht | ht <;> cases ht
  holds t ht := ht.1
  passed := ⟨[], [], rfl, .slnil, by simp, .slnil⟩

theorem waits_join (h : l.Tracks queue) (ht : t ∉ l.joined) : (l.join t).Waits s ↔ l.Waits s ∨ s = t := by
  have hover : ¬l.Over t := fun hover => ht (h.known t hover)
  show s ∈ l.joined ++ [t] ∧ ¬l.Over s ↔ _
  rw [List.mem_append, List.mem_singleton, or_and_right]
  refine or_congr_right ⟨And.left, ?_⟩
  rintro rfl
  exact ⟨rfl, hover⟩

/-- Who is in the queue was not served. -/
theorem not_served (h : l.Tracks queue) (ht : t ∈ queue) : t ∉ l.served := by
  obtain ⟨ahead, behind, hjoined, hserved, -, hqueue⟩ := h.passed
  have hnodup := h.nodup
  rw [hjoined] at hnodup
  exact fun hmem => List.disjoint_of_nodup_append hnodup (hserved.subset hmem) (hqueue.subset ht)

/-- All who stood in the line ahead of one who was served are over, since he does not stand behind the queue. -/
theorem servedInOrder (h : l.Tracks queue) : l.ServedInOrder := by
  obtain ⟨ahead, later, hjoined, hserved, hahead, -⟩ := h.passed
  have hnodup := h.nodup
  rw [hjoined] at hnodup
  refine ⟨?_, ?_⟩
  · rw [hjoined]
    exact hserved.trans (List.sublist_append_left ahead later)
  · intro before t behind hsplit ht s hs
    rw [hjoined] at hsplit
    rcases List.append_eq_append_iff.1 hsplit with ⟨between, -, hlater⟩ | ⟨between, hbefore, -⟩
    · have hmem : t ∈ later := by
        rw [hlater]
        exact List.mem_append_right _ List.mem_cons_self
      exact absurd hmem (List.disjoint_of_nodup_append hnodup (hserved.subset ht))
    · apply hahead
      rw [hbefore]
      exact List.mem_append_left _ hs

/-- The first in the queue who waits stands in the line behind none but those who do not. -/
theorem split (h : l.Tracks (gone ++ t :: rest)) (hgone : ∀ s ∈ gone, l.Over s) (ht : ¬l.Over t) :
    ∃ ahead behind, l.joined = ahead ++ t :: behind ∧ l.served.Sublist ahead ∧ (∀ s ∈ ahead, l.Over s) ∧
      rest.Sublist behind := by
  obtain ⟨ahead, behind, hjoined, hserved, hahead, hqueue⟩ := h.passed
  obtain ⟨first, others, rfl, -, hothers⟩ := List.append_sublist_iff.1 hqueue
  obtain ⟨middle, behind, rfl, hmiddle, hrest⟩ := List.cons_sublist_iff.1 hothers
  obtain ⟨near, far, rfl⟩ := List.append_of_mem hmiddle
  have hall : l.joined = (ahead ++ (first ++ near)) ++ t :: (far ++ behind) := by
    rw [hjoined]
    simp only [List.append_assoc, List.cons_append]
  have hnodup := h.nodup
  rw [hall] at hnodup
  refine ⟨_, _, hall, hserved.trans (List.sublist_append_left _ _), ?_,
    hrest.trans (List.sublist_append_right _ _)⟩
  intro s hs
  by_contra hover
  -- one who waits is in the queue, but neither before nor behind the first of them
  have hmem : s ∈ l.joined := by
    rw [hall]
    exact List.mem_append_left _ hs
  have hdisjoint := List.disjoint_of_nodup_append hnodup hs
  rcases List.mem_append.1 (h.holds s ⟨hmem, hover⟩) with hs' | hs'
  · exact hover (hgone s hs')
  · rcases List.mem_cons.1 hs' with rfl | hs'
    · exact hdisjoint List.mem_cons_self
    · exact hdisjoint (List.mem_cons_of_mem _ (List.mem_append_right _ (hrest.subset hs')))

theorem isFirst (h : l.Tracks (gone ++ t :: rest)) (hgone : ∀ s ∈ gone, l.Over s) (ht : ¬l.Over t) :
    l.IsFirst t := by
  obtain ⟨ahead, behind, hjoined, -, hahead, -⟩ := h.split hgone ht
  exact ⟨ahead, behind, hjoined, hahead, ht⟩

theorem join (h : l.Tracks queue) (ht : t ∉ l.joined) : (l.join t).Tracks (queue ++ [t]) := by
  obtain ⟨ahead, behind, hjoined, hserved, hahead, hqueue⟩ := h.passed
  refine ⟨?_, ?_, ?_, ahead, behind ++ [t], ?_, hserved, hahead, hqueue.append_right [t]⟩
  · show (l.joined ++ [t]).Nodup
    refine List.nodup_append.2 ⟨h.nodup, List.nodup_singleton t, ?_⟩
    rintro s hs u hu rfl
    exact ht (List.mem_singleton.1 hu ▸ hs)
  · exact fun s hs => List.mem_append_left _ (h.known s hs)
  · intro s hs
    rcases (h.waits_join ht).1 hs with hs | rfl
    · exact List.mem_append_left _ (h.holds s hs)
    · exact List.mem_append_right _ List.mem_cons_self
  · rw [← List.append_assoc, ← hjoined]
    rfl

/-- Who does not wait may be taken out of the queue. -/
theorem shrink (h : l.Tracks queue) (hqueue : queue'.Sublist queue) (hholds : ∀ t, l.Waits t → t ∈ queue') :
    l.Tracks queue' := by
  obtain ⟨ahead, behind, hjoined, hserved, hahead, hbehind⟩ := h.passed
  exact ⟨h.nodup, h.known, hholds, ahead, behind, hjoined, hserved, hahead, hqueue.trans hbehind⟩

theorem remove (h : l.Tracks queue) (ht : ¬l.Waits t) : l.Tracks (queue.filter (· != t)) := by
  apply h.shrink List.filter_sublist
  intro s hs
  refine List.mem_filter.2 ⟨h.holds s hs, bne_iff_ne.2 ?_⟩
  rintro rfl
  exact ht hs

theorem leave (h : l.Tracks queue) (t : Nat) : (l.leave t).Tracks queue := by
  by_cases ht : t ∈ l.joined
  · obtain ⟨ahead, behind, hjoined, hserved, hahead, hqueue⟩ := h.passed
    refine ⟨?_, ?_, fun s hs => h.holds s (waits_leave.1 hs).1, ahead, behind, ?_, ?_, ?_, hqueue⟩
    · rw [joined_leave]
      exact h.nodup
    · intro s hs
      rw [joined_leave]
      rcases (over_leave ht).1 hs with hs | rfl
      · exact h.known s hs
      · exact ht
    · rw [joined_leave, hjoined]
    · rw [served_leave]
      exact hserved
    · exact fun s hs => (over_leave ht).2 (.inl (hahead s hs))
  · rw [Line.leave, if_neg ht]
    exact h

/-- The first who waits is served, and those before him in the queue, who do not wait, are passed over. -/
theorem serve (h : l.Tracks (gone ++ t :: rest)) (hgone : ∀ s ∈ gone, l.Over s) (ht : ¬l.Over t) :
    (l.serve t).Tracks rest := by
  obtain ⟨ahead, behind, hjoined, hserved, hahead, hrest⟩ := h.split hgone ht
  refine ⟨h.nodup, ?_, ?_, ahead ++ [t], behind, ?_, hserved.append_right [t], ?_, hrest⟩
  · intro s hs
    rcases over_serve.1 hs with hs | rfl
    · exact h.known s hs
    · show s ∈ l.joined
      rw [hjoined]
      exact List.mem_append_right _ List.mem_cons_self
  · intro s hs
    obtain ⟨hs, hne⟩ := waits_serve.1 hs
    rcases List.mem_append.1 (h.holds s hs) with hs' | hs'
    · exact absurd (hgone s hs') hs.2
    · exact (List.mem_cons.1 hs').resolve_left hne
  · show l.joined = _
    rw [hjoined, List.append_assoc]
    rfl
  · intro s hs
    rcases List.mem_append.1 hs with hs | hs
    · exact over_serve.2 (.inl (hahead s hs))
    · exact over_serve.2 (.inr (List.mem_singleton.1 hs))

end Tracks

end Line

end RemoteCall
