import ChromeEc.Lib.Compact
import ChromeEc.Lib.Memory

/- Messages one after the other in a ring, each behind a cell with its length.

  What is proved: how the messages change when one is put behind the last (`Framed.snoc`)
  or the first is left behind (`Framed.first`, `Framed.rest`), and that they only depend on
  the cells they take up (`Framed.congr`). -/
namespace ChromeEc.Lib

variable {β : Type} {count : Nat → β} {m : List β} {ms ms' : List (List β)}

def frames (count : Nat → β) : List (List β) → List β
  | [] => []
  | m :: ms => count m.length :: (m ++ frames count ms)

@[simp] theorem frames_nil : frames count [] = [] := rfl

theorem frames_append : frames count (ms ++ ms') = frames count ms ++ frames count ms' := by
  induction ms with
  | nil => rfl
  | cons m ms ih => rw [List.cons_append, frames, frames, ih, List.cons_append, List.append_assoc]

theorem length_frames_cons : (frames count (m :: ms)).length = 1 + m.length + (frames count ms).length := by
  rw [frames, List.length_cons, List.length_append]
  omega

theorem length_frames_snoc : (frames count (ms ++ [m])).length = (frames count ms).length + 1 + m.length := by
  rw [frames_append, List.length_append, length_frames_cons, frames_nil, List.length_nil]
  omega

theorem length_le_length_frames : ms.length ≤ (frames count ms).length := by
  induction ms with
  | nil => exact Nat.zero_le _
  | cons m ms ih =>
    rw [length_frames_cons, List.length_cons]
    omega

variable {N h : Nat} {cells cells' : Nat → β}

/-- The ring has the messages from position `h` on. -/
def Framed (count : Nat → β) (N : Nat) (cells : Nat → β) (h : Nat) (ms : List (List β)) : Prop :=
  Memory.Holds (ringAt N cells h) 0 (frames count ms)

theorem Framed.nil : Framed count N cells h [] := Memory.holds_nil

theorem Framed.congr (hms : Framed count N cells h ms)
    (hsame : ∀ i, i < (frames count ms).length → ringAt N cells' h i = ringAt N cells h i) :
    Framed count N cells' h ms :=
  Memory.Holds.congr hms fun i _ hi => hsame i (by omega)

theorem Framed.snoc (hms : Framed count N cells h ms)
    (hcount : ringAt N cells h (frames count ms).length = count m.length)
    (hm : Memory.Holds (ringAt N cells h) ((frames count ms).length + 1) m) : Framed count N cells h (ms ++ [m]) := by
  have hlast : frames count [m] = count m.length :: m := by rw [frames, frames_nil, List.append_nil]
  rw [Framed, frames_append, Memory.holds_append, Nat.zero_add, hlast, Memory.holds_cons]
  exact ⟨hms, hcount, hm⟩

theorem Framed.first (hms : Framed count N cells h (m :: ms)) :
    ringAt N cells h 0 = count m.length ∧ Memory.Holds (ringAt N cells h) 1 m := by
  rw [Framed, frames, Memory.holds_cons, Memory.holds_append] at hms
  exact ⟨hms.1, hms.2.1⟩

theorem Framed.rest (hms : Framed count N cells h (m :: ms)) : Framed count N cells ((h + (1 + m.length)) % N) ms := by
  rw [Framed, frames, Memory.holds_cons, Memory.holds_append] at hms
  intro i hi
  rw [ringAt_mod (Nat.dvd_refl N), ringAt_add, Nat.zero_add, ← hms.2.2 i hi, Nat.zero_add]

end ChromeEc.Lib
