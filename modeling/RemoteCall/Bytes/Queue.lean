import RemoteCall.Bytes
/-!
# Queues of bytes

Bytes that are pushed at the back and popped from the front. `ByteQueue.toList` is what a queue holds, in
order; `toList_push`, `fst_pop` and `toList_pop` say what the operations do to it.
-/

namespace RemoteCall

/-- A queue in two halves, so that each byte is moved a fixed number of times. -/
structure ByteQueue where
  front : Bytes
  /-- The later bytes, the last one first. -/
  back : Bytes
  size : Nat
  size_eq : size = front.length + back.length
deriving Repr

namespace ByteQueue

def empty : ByteQueue := ⟨[], [], 0, rfl⟩

instance : Inhabited ByteQueue := ⟨empty⟩

/-- The bytes of a queue, the oldest first. -/
def toList (q : ByteQueue) : Bytes := q.front ++ q.back.reverse

def push (q : ByteQueue) (bs : Bytes) : ByteQueue where
  front := q.front
  back := bs.reverse ++ q.back
  size := q.size + bs.length
  size_eq := by simp [q.size_eq]; omega

theorem le_length_of_length_take {n : Nat} {bs : Bytes} (h : (bs.take n).length = n) : n ≤ bs.length := by
  rw [List.length_take] at h
  omega

/-- The oldest `n` bytes, or all if there are fewer, and the rest. -/
def pop (n : Nat) (q : ByteQueue) : Bytes × ByteQueue :=
  if h : (q.front.take n).length = n then
    (q.front.take n, ⟨q.front.drop n, q.back, q.size - n, by
      have := le_length_of_length_take h
      simp [q.size_eq]; omega⟩)
  else (q.toList.take n, ⟨q.toList.drop n, [], q.size - n, by simp [toList, q.size_eq]⟩)

@[simp] theorem toList_empty : empty.toList = [] := rfl

theorem size_eq_length (q : ByteQueue) : q.size = q.toList.length := by
  simp [toList, q.size_eq]

@[simp] theorem toList_push (q : ByteQueue) (bs : Bytes) : (q.push bs).toList = q.toList ++ bs := by
  simp [toList, push]

@[simp] theorem fst_pop (n : Nat) (q : ByteQueue) : (q.pop n).1 = q.toList.take n := by
  unfold pop
  split
  · rename_i h
    rw [toList, List.take_append_of_le_length (le_length_of_length_take h)]
  · rfl

@[simp] theorem toList_pop (n : Nat) (q : ByteQueue) : (q.pop n).2.toList = q.toList.drop n := by
  unfold pop
  split
  · rename_i h
    simp only [toList]
    rw [List.drop_append_of_le_length (le_length_of_length_take h)]
  · simp [toList]

end ByteQueue

end RemoteCall
