import ChromeEc.Console.Editor

/- What the console shows: the line editor drives a plain terminal.

  While a line is edited, the buffer stores `a ++ b` with a NUL behind, the cursor stands between
  `a` and `b`, and on the terminal the row reads the prompt, `a` and `b` with the cursor at the
  same place (`Editing`). Each key moves the boundary between the parts or changes one of them:
  a result about the buffer gives the next string, and one about the row of a terminal what the
  characters written for it do. A line is executed as `a ++ b`.

  The commands may print anything that leaves nothing behind the cursor, and the escape sequences
  that are read need no invariant: every key keeps the line, wherever it comes from. -/
namespace ChromeEc.Console
open Lib.Terminal

/-- A buffer of `n` characters that stores a printable string. -/
structure Stores (n : Nat) (buf w : List UInt8) : Prop where
  length : buf.length = n
  split : ∃ rest, buf = w ++ 0 :: rest
  printable : ∀ x ∈ w, graphic x = true

/-- Every slot stores a string, and the next slot and the one last shown are slots. -/
structure Slots (cfg : Config) (history : List (List UInt8)) (next pos : Int) : Prop where
  length : history.length = cfg.history
  stores : ∀ slot ∈ history, ∃ w, Stores cfg.inputLineSize slot w
  next : 0 < cfg.history → ∃ k : Nat, k < cfg.history ∧ next = k
  pos : 0 < cfg.history → ∃ k : Nat, k < cfg.history ∧ pos = k

/-- The line `a ++ b` is edited with the cursor between its parts, and the terminal that began as `t` shows it behind the
prompt. -/
structure Editing (cfg : Config) (t : Screen) (s : Editor) (done : List (List UInt8)) (a b : List UInt8) : Prop where
  buf : Stores cfg.inputLineSize s.inputBuf (a ++ b)
  len : s.inputLen = (a ++ b).length
  pos : s.inputPos = a.length
  slots : Slots cfg s.history s.historyNext s.historyPos
  screen : ∃ p, Shows (feeds t s.out) p (prompt ++ a) b
  executed : s.executed = done

variable {cfg : Config} {cmds : Commands} {t : Screen} {s : Editor}
  {done : List (List UInt8)} {a b w buf rest : List UInt8}
  {n : Nat} {x y z : UInt8} {i : Int}

/-! ## Buffers -/

@[simp] theorem toNat?_natCast (k : Nat) : (k : Int).toNat? = some k := rfl

theorem graphic_ne_zero (h : graphic x = true) : x ≠ 0 := by
  rintro rfl
  cases h

theorem cstr_append (hw : ∀ x ∈ w, graphic x = true) : cstr (w ++ 0 :: rest) = some w := by
  have htake : (w ++ 0 :: rest).takeWhile (fun x => x != 0) = w := by
    rw [List.takeWhile_append_of_pos fun x hx => bne_iff_ne.mpr (graphic_ne_zero (hw x hx))]
    simp
  rw [cstr, if_pos (List.mem_append_right _ (List.mem_cons_self ..)), htake]

theorem Stores.cstr_drop (h : Stores n buf (a ++ b)) : cstr (buf.drop a.length) = some b := by
  obtain ⟨rest, rfl⟩ := h.split
  rw [List.append_assoc, List.drop_left]
  exact cstr_append fun x hx => h.printable x (List.mem_append_right _ hx)

theorem Stores.cstr (h : Stores n buf w) : Console.cstr buf = some w := h.cstr_drop (a := [])

theorem Stores.lt (h : Stores n buf w) : w.length < n := by
  obtain ⟨rest, hsplit⟩ := h.split
  rw [← h.length, hsplit, List.length_append, List.length_cons]
  omega

theorem strzcpy_append (hw : ∀ x ∈ w, graphic x = true) (hn : w.length < n) (hbuf : n ≤ buf.length) :
    strzcpy buf (w ++ 0 :: rest) n = some (w ++ 0 :: buf.drop (w.length + 1)) := by
  induction w generalizing buf n with
  | nil =>
    obtain ⟨y, dest, rfl⟩ : ∃ y dest, buf = y :: dest := List.exists_cons_of_length_pos (by omega)
    match n, hn with
    | 1, _ => rfl
    | _ + 2, _ => rfl
  | cons x w ih =>
    rw [List.forall_mem_cons] at hw
    obtain ⟨y, dest, rfl⟩ : ∃ y dest, buf = y :: dest := List.exists_cons_of_length_pos (by omega)
    match n, hn with
    | m + 2, hn =>
      have hrest := @ih dest (m + 1) hw.2 (by simpa using hn) (by simpa using hbuf)
      rw [List.cons_append, strzcpy, if_neg (graphic_ne_zero hw.1), hrest]
      rfl

theorem Stores.strzcpy {dest : List UInt8} (h : Stores n buf w) (hdest : dest.length = n) :
    ∃ dest', Console.strzcpy dest buf n = some dest' ∧ Stores n dest' w := by
  obtain ⟨rest, hsplit⟩ := h.split
  have hlt := h.lt
  refine ⟨_, hsplit ▸ strzcpy_append h.printable hlt (Nat.le_of_eq hdest.symm), ?_, ⟨_, rfl⟩, h.printable⟩
  rw [List.length_append, List.length_cons, List.length_drop]
  omega

/-- What stays in front, what is moved, and what stays behind. -/
theorem memmove_eq {d k : Nat} {front m behind src tail : List UInt8} (hdest : buf = front ++ (rest ++ behind))
    (hsrc : buf = src ++ (m ++ tail)) (hfront : front.length = d) (hskip : src.length = k) (hm : m.length = n)
    (hrest : rest.length = n) : memmove buf d k n = some (front ++ (m ++ behind)) := by
  subst hfront hskip hm
  have hfit : front.length + m.length ≤ buf.length := by
    rw [hdest, List.length_append, List.length_append]
    omega
  have hread : src.length + m.length ≤ buf.length := by
    rw [hsrc, List.length_append, List.length_append]
    omega
  have htake : buf.take front.length = front := by rw [hdest, List.take_left]
  have hmoved : (buf.drop src.length).take m.length = m := by rw [hsrc, List.drop_left, List.take_left]
  have hbehind : buf.drop (front.length + m.length) = behind := by
    rw [← List.drop_drop, hdest, List.drop_left, ← hrest, List.drop_left]
  simp [memmove, hfit, hread, htake, hmoved, hbehind]

theorem memmove_left : memmove (a ++ x :: (b ++ 0 :: rest)) a.length (a.length + 1 : Nat) (b.length + 1 : Nat) =
    some (a ++ (b ++ 0 :: 0 :: rest)) := by
  have hmove := @memmove_eq (a ++ x :: (b ++ 0 :: rest)) (x :: b) (b.length + 1) a.length
    (a.length + 1) a (b ++ [0]) (0 :: rest)
    (a ++ [x]) rest (by simp) (by simp) rfl (by simp) (by simp) rfl
  simpa using hmove

theorem memmove_right : ∃ y, memmove (a ++ (b ++ 0 :: z :: rest)) (a.length + 1 : Nat) a.length (b.length + 1 : Nat) =
    some (a ++ y :: (b ++ 0 :: rest)) := by
  obtain ⟨y, v, hv⟩ : ∃ y v, b ++ [0, z] = y :: v := List.exists_cons_of_length_pos (by simp)
  have hlength : v.length = b.length + 1 := by
    have hboth := congrArg List.length hv
    simpa using hboth.symm
  have hdest : a ++ (b ++ 0 :: z :: rest) = (a ++ [y]) ++ (v ++ rest) := by
    calc a ++ (b ++ 0 :: z :: rest) = a ++ ((b ++ [0, z]) ++ rest) := by simp
      _ = (a ++ [y]) ++ (v ++ rest) := by simp [hv]
  have hmove := @memmove_eq (a ++ (b ++ 0 :: z :: rest)) v (b.length + 1)
    (a.length + 1) a.length (a ++ [y]) (b ++ [0]) rest a
    (z :: rest) hdest (by simp) (by simp) rfl (by simp) hlength
  exact ⟨y, by simpa using hmove⟩

theorem putsBuf_eq {k : Nat} (hi : i = k) (hk : s.inputBuf.drop k = b ++ 0 :: rest) (hb : ∀ x ∈ b, graphic x = true) :
    s.putsBuf i = some (s.puts b) := by
  simp [Editor.putsBuf, hi, hk, cstr_append hb]

theorem repeatChar_eq (hi : i = n) : repeatChar x i s = some (s.puts (List.replicate n x)) := by
  rw [hi]
  rfl

theorem setBuf_eq {k : Nat} (hi : i = k) (hk : k < s.inputBuf.length) :
    s.setBuf i x = some { s with inputBuf := s.inputBuf.set k x } := by
  simp [Editor.setBuf, hi, hk]

theorem Editing.count (h : Editing cfg t s done a b) : s.inputLen - s.inputPos = b.length := by
  rw [h.len, h.pos, List.length_append]
  omega

theorem Editing.at_end (h : Editing cfg t s done a []) : s.inputPos = s.inputLen := by
  rw [h.len, h.pos, List.append_nil]

theorem Editing.not_at_end (h : Editing cfg t s done a (x :: b)) : s.inputPos ≠ s.inputLen := by
  have hcount := h.count
  rw [List.length_cons] at hcount
  omega

theorem Editing.first_graphic (h : Editing cfg t s done a b) : ∀ y ∈ a, graphic y = true := fun y hy =>
  h.buf.printable y (List.mem_append_left _ hy)

theorem Editing.rest_graphic (h : Editing cfg t s done a b) : ∀ y ∈ b, graphic y = true := fun y hy =>
  h.buf.printable y (List.mem_append_right _ hy)

/-! ## Moves of the cursor -/

theorem printInt_natCast : printInt n = decimal n := by
  rw [printInt, if_neg (by omega), Int.natAbs_natCast]

/-- The cursor goes to the beginning of the line, whatever is in the buffer. -/
theorem moveCursorBegin_shows {p : Nat} {q : List UInt8} (hpos : s.inputPos = a.length)
    (h : Shows (feeds t s.out) p (q ++ a) b) :
    ∃ v, moveCursorBegin s = { s.puts v with inputPos := 0 } ∧ Shows (feeds t (s.out ++ v)) p q (a ++ b) := by
  by_cases ha : a = []
  · subst ha
    have hzero : s.inputPos = 0 := hpos
    refine ⟨[], ?_, ?_⟩
    · rw [moveCursorBegin, if_pos hzero, ← hzero, Editor.puts, List.append_nil]
    · rwa [List.append_nil] at h ⊢
  · have hne : s.inputPos ≠ 0 := by
      rw [hpos]
      simpa using ha
    have hleft := h.left ha
    rw [← feeds_append] at hleft
    refine ⟨_, ?_, hleft⟩
    rw [moveCursorBegin, if_neg hne, hpos, printInt_natCast]
    rfl

/-- The text stays, and the cursor goes where the terminal shows it. -/
theorem Editing.move (h : Editing cfg t s done a b) {a' b' : List UInt8} (hsame : a' ++ b' = a ++ b) (hpos : i = a'.length)
    (hscreen : ∃ p, Shows (feeds t (s.out ++ w)) p (prompt ++ a') b') :
    Editing cfg t { s.puts w with inputPos := i } done a' b' :=
  ⟨hsame ▸ h.buf, hsame ▸ h.len, hpos, h.slots, hscreen, h.executed⟩

theorem Editing.begin (h : Editing cfg t s done a b) : Editing cfg t (moveCursorBegin s) done [] (a ++ b) := by
  obtain ⟨p, hscreen⟩ := h.screen
  obtain ⟨v, hmove, hshows⟩ := moveCursorBegin_shows h.pos hscreen
  rw [hmove]
  exact h.move (List.nil_append _) rfl ⟨p, by rwa [List.append_nil]⟩

theorem Editing.end (h : Editing cfg t s done a b) : Editing cfg t (moveCursorEnd s) done (a ++ b) [] := by
  obtain ⟨p, hscreen⟩ := h.screen
  cases b with
  | nil =>
    rw [moveCursorEnd, if_pos h.at_end, List.append_nil]
    exact h
  | cons x b =>
    rw [← List.append_nil (x :: b)] at hscreen
    have hright := hscreen.right (List.cons_ne_nil _ _)
    rw [← feeds_append, List.append_assoc prompt] at hright
    rw [moveCursorEnd, if_neg h.not_at_end, h.count, printInt_natCast]
    exact h.move (List.append_nil _) h.len ⟨p, hright⟩

theorem Editing.right (h : Editing cfg t s done a (x :: b)) : Editing cfg t (moveCursorRight s) done (a ++ [x]) b := by
  obtain ⟨p, hscreen⟩ := h.screen
  have hone : x :: b = [x] ++ b := rfl
  rw [hone] at hscreen
  have hright := hscreen.right (List.cons_ne_nil _ _)
  rw [← feeds_append, List.append_assoc prompt] at hright
  rw [moveCursorRight, if_neg h.not_at_end]
  refine h.move (List.append_assoc _ _ _) ?_ ⟨p, hright⟩
  rw [h.pos, List.length_append]
  rfl

theorem Editing.left (h : Editing cfg t s done (a ++ [x]) b) : Editing cfg t (moveCursorLeft s) done a (x :: b) := by
  obtain ⟨p, hscreen⟩ := h.screen
  have hpos := h.pos
  rw [List.length_append, List.length_singleton] at hpos
  have hne : s.inputPos ≠ 0 := by
    rw [hpos]
    omega
  rw [← List.append_assoc] at hscreen
  have hleft := hscreen.left (List.cons_ne_nil _ _)
  rw [← feeds_append] at hleft
  rw [moveCursorLeft, if_neg hne]
  refine h.move (List.append_cons _ _ _) ?_ ⟨p, hleft⟩
  rw [hpos]
  omega

/-! ## Changes of the line -/

/-- The line becomes `a ++ b` in `buf`, with `w` written to the console. -/
def Editor.become (s : Editor) (buf a b w : List UInt8) : Editor :=
  { s with inputBuf := buf, inputLen := (a ++ b).length, inputPos := a.length, out := s.out ++ w }

theorem Editing.become (h : Editing cfg t s done a b) {a' b' : List UInt8} (hbuf : Stores cfg.inputLineSize buf (a' ++ b'))
    (hscreen : ∃ p, Shows (feeds (feeds t s.out) w) p (prompt ++ a') b') :
    Editing cfg t (s.become buf a' b' w) done a' b' :=
  ⟨hbuf, rfl, rfl, h.slots, feeds_append ▸ hscreen, h.executed⟩

theorem pullRest_eq (hpos : s.inputPos = (a.length + 1 : Nat)) (hlen : s.inputLen = (a.length + 1 + b.length : Nat))
    (hbuf : s.inputBuf = a ++ x :: (b ++ 0 :: rest)) (hb : ∀ x ∈ b, graphic x = true) :
    pullRest s = some { s with inputBuf := a ++ (b ++ 0 :: 0 :: rest), out := s.out ++ b } := by
  by_cases hend : b = []
  · subst hend
    have hlast : s.inputPos = s.inputLen := by rw [hpos, hlen, List.length_nil, Nat.add_zero]
    have hprev : s.inputLen - 1 = a.length := by
      rw [← hlast, hpos]
      omega
    rw [pullRest, if_neg (not_not.mpr hlast), setBuf_eq hprev (by simp [hbuf]), hbuf, List.append_nil]
    simp
  · have hlength := List.length_pos_iff.mpr hend
    have hne : s.inputPos ≠ s.inputLen := by
      rw [hpos, hlen]
      omega
    have hcount : s.inputLen - s.inputPos + 1 = (b.length + 1 : Nat) := by
      rw [hpos, hlen]
      omega
    have hprev : s.inputPos - 1 = a.length := by
      rw [hpos]
      omega
    have hdrop : s.inputBuf.drop (a.length + 1) = b ++ 0 :: rest := by
      rw [hbuf, List.append_cons, List.drop_left' (by simp)]
    have hmove : memmove s.inputBuf (s.inputPos - 1) s.inputPos (s.inputLen - s.inputPos + 1) =
        some (a ++ (b ++ 0 :: 0 :: rest)) := by
      rw [hprev, hcount, hpos, hbuf]
      exact memmove_left
    rw [pullRest, if_pos hne, putsBuf_eq hpos hdrop hb]
    simp only [Option.bind_eq_bind, Option.bind_some, Editor.puts, hmove]

theorem Stores.erase (h : Stores n (a ++ x :: (b ++ 0 :: rest)) (a ++ [x] ++ b)) :
    Stores n (a ++ (b ++ 0 :: 0 :: rest)) (a ++ b) := by
  refine ⟨?_, ⟨0 :: rest, (List.append_assoc _ _ _).symm⟩, fun y hy => h.printable y ?_⟩
  · rw [← h.length]
    simp
    omega
  · rcases List.mem_append.mp hy with ha | hb
    · exact List.mem_append_left _ (List.mem_append_left _ ha)
    · exact List.mem_append_right _ hb

theorem Editing.backspace (h : Editing cfg t s done (a ++ [x]) b) :
    ∃ s', handleBackspace s = some s' ∧ Editing cfg t s' done a b := by
  obtain ⟨p, hscreen⟩ := h.screen
  obtain ⟨rest, hsplit⟩ := h.buf.split
  have hstores := h.buf
  have hpos : s.inputPos = (a.length + 1 : Nat) := by rw [h.pos, List.length_append, List.length_singleton]
  have hlen : s.inputLen = (a.length + 1 + b.length : Nat) := by
    rw [h.len, List.length_append, List.length_append, List.length_singleton]
  have hbuf : s.inputBuf = a ++ x :: (b ++ 0 :: rest) := by simpa using hsplit
  have hne : s.inputPos ≠ 0 := by
    rw [hpos]
    omega
  have hcount : s.inputLen - s.inputPos + 1 = (b.length + 1 : Nat) := by
    rw [h.count]
    rfl
  have hless : s.inputLen - 1 = (a ++ b).length := by
    rw [hlen, List.length_append]
    omega
  have hprev : s.inputPos - 1 = a.length := by
    rw [hpos]
    omega
  have hrun : handleBackspace s = some (s.become (a ++ (b ++ 0 :: 0 :: rest)) a b
      (Lib.Terminal.backspace :: (b ++ blank :: List.replicate (b.length + 1) Lib.Terminal.backspace))) := by
    rw [handleBackspace, if_neg hne,
      @pullRest_eq (s.puts [Lib.Terminal.backspace]) a b rest x hpos hlen hbuf h.rest_graphic]
    simp only [Option.bind_eq_bind, Option.bind_some, Editor.puts, repeatChar_eq hcount, hless, hprev, Editor.become]
    simp
  rw [hbuf] at hstores
  rw [← List.append_assoc] at hscreen
  exact ⟨_, hrun, h.become hstores.erase ⟨p, hscreen.erase h.rest_graphic⟩⟩

theorem pushRest_eq (hpos : s.inputPos = a.length) (hlen : s.inputLen = (a ++ b).length)
    (hbuf : s.inputBuf = a ++ (b ++ 0 :: z :: rest)) (hb : ∀ x ∈ b, graphic x = true) :
    ∃ y z', pushRest s = some { s with
      inputBuf := a ++ y :: (b ++ z' :: rest)
      out := s.out ++ (b ++ List.replicate b.length backspace) } := by
  rw [List.length_append] at hlen
  by_cases hend : b = []
  · subst hend
    have hlast : s.inputPos = s.inputLen := by rw [hpos, hlen, List.length_nil, Nat.add_zero]
    have hsame : a ++ 0 :: ([] ++ z :: rest) = s.inputBuf := hbuf.symm
    -- Nothing is moved, and the NUL makes room for the character.
    refine ⟨0, z, ?_⟩
    rw [pushRest, if_neg (not_not.mpr hlast), hsame, List.length_nil, List.replicate_zero,
      List.append_nil, List.append_nil]
  · have hlength := List.length_pos_iff.mpr hend
    have hne : s.inputPos ≠ s.inputLen := by
      rw [hpos, hlen]
      omega
    have hcount : s.inputLen - s.inputPos = b.length := by
      rw [hpos, hlen]
      omega
    have hdrop : s.inputBuf.drop a.length = b ++ 0 :: z :: rest := by rw [hbuf, List.drop_left]
    obtain ⟨y, hright⟩ := @memmove_right a b rest z
    have hmove : memmove s.inputBuf (s.inputPos + 1) s.inputPos (s.inputLen - s.inputPos + 1) =
        some (a ++ y :: (b ++ 0 :: rest)) := by
      rw [hcount, hpos, hbuf]
      exact hright
    refine ⟨y, 0, ?_⟩
    rw [pushRest, if_pos hne, putsBuf_eq hpos hdrop hb]
    simp only [Option.bind_eq_bind, Option.bind_some, Editor.puts, hmove, repeatChar_eq hcount, List.append_assoc]

theorem Stores.insert (h : Stores n (a ++ (b ++ 0 :: z :: rest)) (a ++ b)) (hx : graphic x = true) :
    Stores n (a ++ x :: (b ++ 0 :: rest)) (a ++ [x] ++ b) := by
  refine ⟨?_, ⟨rest, by simp⟩, fun y hy => ?_⟩
  · rw [← h.length]
    simp
    omega
  · rw [List.append_assoc, List.singleton_append, List.mem_append, List.mem_cons] at hy
    rcases hy with ha | rfl | hb
    · exact h.printable y (List.mem_append_left _ ha)
    · exact hx
    · exact h.printable y (List.mem_append_right _ hb)

theorem Editing.insert (h : Editing cfg t s done a b) {c : Int} (hc : isprint (UInt8.ofInt c) = true)
    (hroom : s.inputLen < (cfg.inputLineSize : Int) - 1) :
    ∃ s', insertChar cfg c s = some s' ∧ Editing cfg t s' done (a ++ [UInt8.ofInt c]) b := by
  obtain ⟨p, hscreen⟩ := h.screen
  obtain ⟨rest, hsplit⟩ := h.buf.split
  have hstores := h.buf
  -- The line is not full, so the array goes on behind the NUL.
  obtain ⟨z, rest, rfl⟩ : ∃ z rest', rest = z :: rest' := by
    refine List.exists_cons_of_length_pos ?_
    have hlength := h.buf.length
    rw [hsplit, List.length_append, List.length_cons] at hlength
    rw [h.len] at hroom
    omega
  rw [List.append_assoc] at hsplit
  obtain ⟨y, z', hpush⟩ := @pushRest_eq (s.puts [UInt8.ofInt c]) a b rest z h.pos h.len hsplit h.rest_graphic
  have hmore : s.inputLen + 1 = (a ++ [UInt8.ofInt c] ++ b).length := by
    rw [h.len, List.length_append, List.length_append, List.length_append, List.length_singleton]
    omega
  have hnext : s.inputPos + 1 = (a ++ [UInt8.ofInt c]).length := by
    rw [h.pos, List.length_append]
    rfl
  have hchar : (a ++ y :: (b ++ z' :: rest)).set a.length (UInt8.ofInt c) =
    a ++ UInt8.ofInt c :: (b ++ z' :: rest) := by simp
  have hnul : (a ++ UInt8.ofInt c :: (b ++ z' :: rest)).set (a ++ [UInt8.ofInt c] ++ b).length 0 =
      a ++ UInt8.ofInt c :: (b ++ 0 :: rest) := by
    have hassoc : ∀ v, a ++ UInt8.ofInt c :: (b ++ v :: rest) = (a ++ [UInt8.ofInt c] ++ b) ++ v :: rest :=
      fun v => by simp
    rw [hassoc, hassoc]
    simp
  have hrun : insertChar cfg c s = some (s.become (a ++ UInt8.ofInt c :: (b ++ 0 :: rest)) (a ++ [UInt8.ofInt c]) b
      (UInt8.ofInt c :: (b ++ List.replicate b.length Lib.Terminal.backspace))) := by
    rw [insertChar, if_neg (by simp [hc]), if_neg (by omega), hpush]
    simp only [Option.bind_eq_bind, Option.bind_some, Editor.puts, hnext]
    rw [setBuf_eq h.pos (by simp), Option.bind_some, setBuf_eq hmore (by simp)]
    simp only [hchar, hnul, hmore, Editor.become]
    simp
  rw [hsplit] at hstores
  have hinsert := hscreen.insert hc h.rest_graphic
  rw [List.append_assoc] at hinsert
  exact ⟨_, hrun, h.become (hstores.insert hc) ⟨p, hinsert⟩⟩

theorem clearRest_eq (hcount : s.inputLen - s.inputPos = n) :
    clearRest s = some { s with out := s.out ++ (List.replicate n blank ++ List.replicate n backspace) } := by
  rw [clearRest, repeatChar_eq hcount]
  simp only [Option.bind_eq_bind, Option.bind_some, Editor.puts, repeatChar_eq hcount, List.append_assoc]

theorem Stores.cut (h : Stores n (a ++ x :: rest) w) (ha : ∀ y ∈ a, graphic y = true) : Stores n (a ++ 0 :: rest) a := by
  refine ⟨?_, ⟨rest, rfl⟩, ha⟩
  rw [← h.length]
  simp

theorem Editing.kill (h : Editing cfg t s done a b) : ∃ s', killToEnd s = some s' ∧ Editing cfg t s' done a [] := by
  obtain ⟨p, hscreen⟩ := h.screen
  obtain ⟨rest, hsplit⟩ := h.buf.split
  cases b with
  | nil => exact ⟨s, if_pos h.at_end, h⟩
  | cons x b =>
    have hstores := h.buf
    have hbuf : s.inputBuf = a ++ x :: (b ++ 0 :: rest) := by simpa using hsplit
    have hrun : killToEnd s = some (s.become (a ++ 0 :: (b ++ 0 :: rest)) a []
        (List.replicate (x :: b).length blank ++ List.replicate (x :: b).length Lib.Terminal.backspace)) := by
      rw [killToEnd, if_neg h.not_at_end, clearRest_eq h.count]
      simp only [Option.bind_eq_bind, Option.bind_some]
      rw [setBuf_eq h.pos (by simp [hbuf])]
      simp [hbuf, h.pos, Editor.become]
    rw [hbuf] at hstores
    refine ⟨_, hrun, h.become ?_ ⟨p, hscreen.cut⟩⟩
    rw [List.append_nil]
    exact hstores.cut h.first_graphic

theorem prompt_graphic : ∀ x ∈ prompt, graphic x = true := List.all_eq_true.mp (by decide)

theorem Editing.reprint (h : Editing cfg t s done a b) :
    ∃ s', Console.reprint s = some s' ∧ Editing cfg t s' done a b := by
  obtain ⟨p, hscreen⟩ := h.screen
  obtain ⟨rest, hsplit⟩ := h.buf.split
  have hfirst : ∀ y ∈ prompt ++ a, graphic y = true := by
    intro y hy
    rcases List.mem_append.mp hy with hprompt | ha
    · exact prompt_graphic y hprompt
    · exact h.first_graphic y ha
  have hrun : Console.reprint s = some (s.become s.inputBuf a b
      (formFeed :: ((prompt ++ a) ++ (b ++ List.replicate b.length Lib.Terminal.backspace)))) := by
    rw [Console.reprint, @putsBuf_eq (s.puts (formFeed :: prompt)) (a ++ b) rest 0 0 rfl hsplit h.buf.printable]
    simp only [Option.bind_eq_bind, Option.bind_some, Editor.puts, repeatChar_eq h.count, Editor.become, ← h.len, ← h.pos,
      List.append_assoc, List.cons_append]
  exact ⟨_, hrun, h.become h.buf ⟨0, Shows.redraw hscreen.mode hfirst h.rest_graphic⟩⟩

/-! ## New lines -/

/-- The prompt on a row without anything behind the cursor. -/
theorem startLine_editing (hbuf : s.inputBuf.length = cfg.inputLineSize)
    (hslots : Slots cfg s.history s.historyNext s.historyPos)
    (hclear : Clear (feeds t s.out)) : ∃ s', startLine s = some s' ∧ Editing cfg t s' s.executed [] [] := by
  have hpos : 0 < s.inputBuf.length := hbuf ▸ cfg.inputLineSize_pos
  obtain ⟨x, rest, hsplit⟩ := List.exists_cons_of_length_pos hpos
  have hrun : startLine s = some { s with
      inputBuf := 0 :: rest, inputLen := 0, inputPos := 0, out := s.out ++ prompt } := by
    rw [startLine, @setBuf_eq { s with inputPos := 0, inputLen := 0 } 0 0 0 rfl hpos]
    simp [hsplit, Editor.puts]
  have htype := hclear.type prompt_graphic
  rw [← feeds_append] at htype
  refine ⟨_, hrun, ⟨?_, ⟨rest, rfl⟩, by simp⟩, rfl, rfl, hslots, ⟨_, htype⟩, rfl⟩
  rw [← hbuf, hsplit]
  rfl

theorem clear_line (hmode : t.mode = .text) (hw : ∀ x ∈ w, graphic x = true) : Clear (feeds t (w ++ [newline])) := by
  rw [feeds_append]
  exact (feed_newline (mode_feeds hmode hw)).clear

theorem Editing.interrupt (h : Editing cfg t s done a b) :
    ∃ s', startLine (s.puts (ascii "^C\n")) = some s' ∧ Editing cfg t s' done [] [] := by
  obtain ⟨p, hscreen⟩ := h.screen
  have htext : ∀ x ∈ ascii "^C", graphic x = true := List.all_eq_true.mp (by decide)
  have hclear := clear_line hscreen.mode htext
  rw [← feeds_append] at hclear
  rw [← h.executed]
  exact @startLine_editing cfg t (s.puts (ascii "^C\n")) h.buf.length h.slots hclear

/-! ## The history -/

theorem saveHistory_eq (hslots : Slots cfg s.history s.historyNext s.historyPos) (hpos : 0 < cfg.history)
    (hbuf : Stores cfg.inputLineSize s.inputBuf w) :
    ∃ hist, saveHistory cfg s = some { s with history := hist } ∧ Slots cfg hist s.historyNext s.historyPos := by
  obtain ⟨k, hk, hnext⟩ := hslots.next hpos
  have hlt : k < s.history.length := hslots.length ▸ hk
  obtain ⟨_, hslot⟩ := hslots.stores _ (List.getElem_mem hlt)
  obtain ⟨slot, hcopy, hstores⟩ := hbuf.strzcpy hslot.length
  refine ⟨s.history.set k slot, ?_, ?_, fun x hx => ?_, hslots.next, hslots.pos⟩
  · simp [saveHistory, hnext, List.getElem?_eq_getElem hlt, hcopy]
  · rw [List.length_set, hslots.length]
  · rcases List.mem_or_eq_of_mem_set hx with hmem | rfl
    · exact hslots.stores x hmem
    · exact ⟨w, hstores⟩

theorem Editing.load (h : Editing cfg t s done a b) {k : Nat} (hk : k < cfg.history) :
    ∃ s' w, loadHistory cfg k s = some s' ∧ Editing cfg t s' done w [] := by
  obtain ⟨p, hscreen⟩ := h.screen
  have hlt : k < s.history.length := h.slots.length ▸ hk
  obtain ⟨w, hslot⟩ := h.slots.stores _ (List.getElem_mem hlt)
  obtain ⟨buf, hcopy, hstores⟩ := hslot.strzcpy h.buf.length
  obtain ⟨rest, hsplit⟩ := hstores.split
  -- The buffer has the new line already while the cursor goes back over the old one.
  obtain ⟨v, hmove, hshows⟩ := @moveCursorBegin_shows t { s with inputBuf := buf } a b p prompt h.pos hscreen
  have hputs : Editor.putsBuf { s with inputBuf := buf, inputPos := 0, out := s.out ++ v } 0 =
      some { s with inputBuf := buf, inputPos := 0, out := s.out ++ v ++ w } :=
    putsBuf_eq (k := 0) rfl hsplit hstores.printable
  have hrun : loadHistory cfg k s = some (s.become buf w []
    (v ++ (w ++ (List.replicate ((a ++ b).length - w.length) blank ++
      List.replicate ((a ++ b).length - w.length) Lib.Terminal.backspace)))) := by
    simp only [loadHistory, toNat?_natCast, List.getElem?_eq_getElem hlt, hcopy, hmove,
      Option.bind_eq_bind, Option.bind_some, Editor.puts, hputs, hstores.cstr]
    by_cases hlonger : s.inputLen > (w.length : Int)
    · have hcount : s.inputLen - (w.length : Int) = ((a ++ b).length - w.length : Nat) := by
        rw [h.len] at hlonger ⊢
        omega
      rw [if_pos hlonger, clearRest_eq hcount]
      simp [Editor.become]
    · -- The new text is not shorter, and nothing is left to clear.
      have hzero : (a ++ b).length - w.length = 0 := by
        rw [h.len] at hlonger
        omega
      rw [if_neg hlonger, hzero]
      simp [Editor.become]
  refine ⟨_, w, hrun, h.become ?_ ⟨p, ?_⟩⟩
  · rwa [List.append_nil]
  · rw [feeds_append, ← feeds_append (t := t)]
    exact hshows.replace hstores.printable

theorem Editing.kept (h : Editing cfg t s done a b) (hpos : 0 < cfg.history) :
    ∃ s', keepEdited cfg s = some s' ∧ Editing cfg t s' done a b ∧ s'.historyPos = s.historyPos := by
  by_cases hsame : s.historyPos = s.historyNext
  · obtain ⟨hist, hsave, hslots⟩ := saveHistory_eq h.slots hpos h.buf
    exact ⟨_, (if_pos hsame).trans hsave, ⟨h.buf, h.len, h.pos, hslots, h.screen, h.executed⟩, rfl⟩
  · exact ⟨s, if_neg hsame, h, rfl⟩

theorem Editing.show (h : Editing cfg t s done a b) {k : Nat} (hk : k < cfg.history) (hi : i = k) :
    ∃ s' w, loadHistory cfg i { s with historyPos := i } = some s' ∧ Editing cfg t s' done w [] := by
  have hslots : Slots cfg s.history s.historyNext i := ⟨h.slots.length, h.slots.stores, h.slots.next, fun _ => ⟨k, hk, hi⟩⟩
  have hmoved : Editing cfg t { s with historyPos := i } done a b := ⟨h.buf, h.len, h.pos, hslots, h.screen, h.executed⟩
  rw [hi] at hmoved ⊢
  exact hmoved.load hk

theorem Editing.previous (h : Editing cfg t s done a b) (hpos : 0 < cfg.history) :
    ∃ s' w, historyPrevious cfg s = some s' ∧ Editing cfg t s' done w [] := by
  obtain ⟨s1, hkeep, hediting, hsame⟩ := h.kept hpos
  obtain ⟨k, hk, hat⟩ := h.slots.pos hpos
  rw [← hsame] at hat
  simp only [historyPrevious, hkeep, Option.bind_eq_bind, Option.bind_some]
  by_cases hwrap : s1.historyPos - 1 < 0
  · rw [if_pos hwrap]
    exact hediting.show (k := cfg.history - 1) (by omega) (by omega)
  · rw [if_neg hwrap]
    exact hediting.show (k := k - 1) (by omega) (by omega)

theorem Editing.following (h : Editing cfg t s done a b) (hpos : 0 < cfg.history) :
    ∃ s' w, historyFollowing cfg s = some s' ∧ Editing cfg t s' done w [] := by
  obtain ⟨s1, hkeep, hediting, hsame⟩ := h.kept hpos
  obtain ⟨k, hk, hat⟩ := h.slots.pos hpos
  rw [← hsame] at hat
  simp only [historyFollowing, hkeep, Option.bind_eq_bind, Option.bind_some]
  by_cases hwrap : s1.historyPos + 1 ≥ cfg.history
  · rw [if_pos hwrap]
    exact hediting.show (k := 0) hpos rfl
  · rw [if_neg hwrap]
    exact hediting.show (k := k + 1) (by omega) (by omega)

/-! ## Commands -/

theorem keepLine_eq (hslots : Slots cfg s.history s.historyNext s.historyPos)
    (hbuf : Stores cfg.inputLineSize s.inputBuf w) :
    ∃ hist next pos, keepLine cfg s = some { s with history := hist, historyNext := next, historyPos := pos } ∧
      Slots cfg hist next pos := by
  by_cases hkeep : 0 < cfg.history ∧ s.inputLen ≠ 0
  · obtain ⟨hist, hsave, hsaved⟩ := saveHistory_eq hslots hkeep.1 hbuf
    obtain ⟨k, hk, hnext⟩ := hslots.next hkeep.1
    have hslot : ∃ m : Nat, m < cfg.history ∧ (s.historyNext + 1) % (cfg.history : Int) = m :=
      ⟨(k + 1) % cfg.history, Nat.mod_lt _ hkeep.1, by rw [hnext]; rfl⟩
    refine ⟨hist, _, _, ?_, hsaved.length, hsaved.stores, fun _ => hslot, fun _ => hslot⟩
    rw [keepLine, if_pos hkeep, hsave]
    rfl
  · exact ⟨_, _, _, if_neg hkeep, hslots⟩

theorem Editing.enter (h : Editing cfg t s done a b) :
    ∃ s', enterLine cmds cfg s = some s' ∧ Editing cfg t s' (done ++ [a ++ b]) [] [] := by
  obtain ⟨p, hscreen⟩ := h.screen
  obtain ⟨hist, next, pos, hkeep, hslots⟩ := @keepLine_eq cfg (s.puts [newline]) (a ++ b) h.slots h.buf
  have hclear : Clear (feeds t (s.out ++ [newline] ++ cmds.prints s.executed (a ++ b))) := by
    have hline := clear_line hscreen.mode fun x hx => absurd hx List.not_mem_nil
    rw [feeds_append, feeds_append]
    exact cmds.clear _ _ _ hline
  -- The words are terminated in place, and the array keeps its size.
  have hlength : ((splitWords (a ++ b)).2.buf ++ s.inputBuf.drop ((a ++ b).length + 1)).length = cfg.inputLineSize := by
    have hlt := h.buf.lt
    rw [List.length_append, length_splitWords, List.length_drop, h.buf.length]
    omega
  obtain ⟨s', hstart, hediting⟩ := @startLine_editing cfg t { s with
    inputBuf := (splitWords (a ++ b)).2.buf ++ s.inputBuf.drop ((a ++ b).length + 1)
    history := hist
    historyNext := next
    historyPos := pos
    out := s.out ++ [newline] ++ cmds.prints s.executed (a ++ b)
    executed := s.executed ++ [a ++ b] } hlength hslots hclear
  rw [h.executed] at hediting
  refine ⟨s', ?_, hediting⟩
  rw [← hstart, enterLine, hkeep]
  simp only [handleCommand, Editor.puts, h.buf.cstr, Option.bind_eq_bind, Option.bind_some]

/-! ## Characters -/

/-- The line is edited further, or executed as it is shown. -/
def Edited (cfg : Config) (t : Screen) (done : List (List UInt8)) (line : List UInt8) (r : Option Editor) : Prop :=
  ∃ s' a b done', r = some s' ∧ Editing cfg t s' done' a b ∧ (done' = done ∨ done' = done ++ [line])

theorem Editing.edited {a' b' : List UInt8} {r : Option Editor} (h : ∃ s', r = some s' ∧ Editing cfg t s' done a' b') :
    Edited cfg t done w r := by
  obtain ⟨s', hrun, hediting⟩ := h
  exact ⟨s', a', b', done, hrun, hediting, Or.inl rfl⟩

theorem Editing.moved {a' b' : List UInt8} (h : Editing cfg t s done a' b') : Edited cfg t done w (some s) :=
  Editing.edited ⟨s, rfl, h⟩

theorem Editing.loaded {r : Option Editor} (h : ∃ s' w, r = some s' ∧ Editing cfg t s' done w []) :
    Edited cfg t done w r := by
  obtain ⟨s', w, hrun, hediting⟩ := h
  exact Editing.edited ⟨s', hrun, hediting⟩

theorem Edited.ite {q : Prop} [Decidable q] {r r' : Option Editor} (h : q → Edited cfg t done w r)
    (h' : ¬q → Edited cfg t done w r') : Edited cfg t done w (if q then r else r') := by
  by_cases hq : q
  · rw [if_pos hq]
    exact h hq
  · rw [if_neg hq]
    exact h' hq

theorem Editing.backspaceKey (h : Editing cfg t s done a b) : Edited cfg t done w (handleBackspace s) := by
  cases a using List.reverseRecOn with
  | nil =>
    have hbegin : s.inputPos = 0 := h.pos
    rw [handleBackspace, if_pos hbegin]
    exact h.moved
  | append_singleton a x => exact Editing.edited h.backspace

theorem Editing.delKey (h : Editing cfg t s done a b) (hend : s.inputPos ≠ s.inputLen) :
    Edited cfg t done w (handleBackspace (moveCursorRight s)) := by
  cases b with
  | nil => exact absurd h.at_end hend
  | cons x b => exact h.right.backspaceKey

theorem Editing.leftKey (h : Editing cfg t s done a b) : Edited cfg t done w (some (moveCursorLeft s)) := by
  cases a using List.reverseRecOn with
  | nil =>
    have hbegin : s.inputPos = 0 := h.pos
    rw [moveCursorLeft, if_pos hbegin]
    exact h.moved
  | append_singleton a x => exact h.left.moved

theorem Editing.rightKey (h : Editing cfg t s done a b) : Edited cfg t done w (some (moveCursorRight s)) := by
  cases b with
  | nil =>
    rw [moveCursorRight, if_pos h.at_end]
    exact h.moved
  | cons x b => exact h.right.moved

theorem Editing.charKey (h : Editing cfg t s done a b) (c : Int) : Edited cfg t done w (insertChar cfg c s) := by
  refine Edited.ite (fun _ => h.moved) fun hprint => Edited.ite (fun _ => h.moved) fun hroom => ?_
  obtain ⟨s', hrun, hediting⟩ := h.insert (Bool.eq_true_of_not_eq_false hprint) (Int.not_le.mp hroom)
  rw [insertChar, if_neg hprint, if_neg hroom] at hrun
  exact Editing.edited ⟨s', hrun, hediting⟩

theorem Editing.enterKey (h : Editing cfg t s done a b) : Edited cfg t done (a ++ b) (enterLine cmds cfg s) := by
  obtain ⟨s', hrun, hediting⟩ := h.enter
  exact ⟨s', [], [], _, hrun, hediting, Or.inr rfl⟩

theorem handleKey_edited (h : Editing cfg t s done a b) (c : Int) :
    Edited cfg t done (a ++ b) (handleKey cmds cfg c s) := by
  refine Edited.ite (fun _ => Edited.ite (fun _ => h.moved) h.delKey) fun _ => ?_
  refine Edited.ite (fun _ => h.backspaceKey) fun _ => ?_
  refine Edited.ite (fun _ => Editing.edited h.interrupt) fun _ => ?_
  refine Edited.ite (fun _ => h.enterKey) fun _ => ?_
  refine Edited.ite (fun _ => h.begin.moved) fun _ => ?_
  refine Edited.ite (fun _ => h.leftKey) fun _ => ?_
  refine Edited.ite (fun _ => h.end.moved) fun _ => ?_
  refine Edited.ite (fun _ => h.rightKey) fun _ => ?_
  refine Edited.ite (fun _ => Editing.edited h.kill) fun _ => ?_
  refine Edited.ite (fun _ => Editing.edited h.reprint) fun _ => ?_
  refine Edited.ite (fun hkey => Editing.loaded (h.previous hkey.1)) fun _ => ?_
  refine Edited.ite (fun hkey => Editing.loaded (h.following hkey.1)) fun _ => ?_
  exact h.charKey c

theorem Editing.sequence (h : Editing cfg t s done a b) (cr : Bool) (st : EscState) :
    Editing cfg t { s with lastRxWasCr := cr, escState := st } done a b :=
  ⟨h.buf, h.len, h.pos, h.slots, h.screen, h.executed⟩

theorem handleSequence_edited (h : Editing cfg t s done a b) (c : Int) :
    Edited cfg t done (a ++ b) (handleSequence cmds cfg c s) := by
  unfold handleSequence
  refine Edited.ite (fun _ => (h.sequence _ _).moved) fun _ => Edited.ite (fun _ => ?_) fun _ => handleKey_edited h c
  exact handleKey_edited (h.sequence _ _) _

theorem consoleHandleChar_edited (h : Editing cfg t s done a b) (c : Int) :
    Edited cfg t done (a ++ b) (consoleHandleChar cmds cfg c s) := by
  refine Edited.ite (fun _ => handleSequence_edited (h.sequence _ _) _) fun _ => ?_
  exact Edited.ite (fun _ => (h.sequence _ _).moved) fun _ => handleSequence_edited (h.sequence _ _) c

/-! ## Streams of characters -/

def Editor.line (s : Editor) : List UInt8 := s.inputBuf.take s.inputLen.toNat

/-- The arrays have kept their sizes, the line ends with its only NUL, and the terminal shows it behind the prompt, with
the cursor at its place. -/
structure Consistent (cfg : Config) (t : Screen) (s : Editor) : Prop where
  size : s.inputBuf.length = cfg.inputLineSize
  slots : s.history.length = cfg.history ∧ ∀ slot ∈ s.history, slot.length = cfg.inputLineSize ∧ 0 ∈ slot
  pos_nonneg : 0 ≤ s.inputPos
  pos_le : s.inputPos ≤ s.inputLen
  len_le : s.inputLen ≤ (cfg.inputLineSize : Int) - 1
  nul : s.inputBuf[s.inputLen.toNat]? = some 0
  only : ∀ k : Nat, k < s.inputLen → ∃ x, s.inputBuf[k]? = some x ∧ x ≠ 0
  shows : ∃ p, Shows t p (prompt ++ s.line.take s.inputPos.toNat) (s.line.drop s.inputPos.toNat)

theorem Editing.line_eq (h : Editing cfg t s done a b) : s.line = a ++ b := by
  obtain ⟨rest, hsplit⟩ := h.buf.split
  rw [Editor.line, h.len, Int.toNat_natCast, hsplit, List.take_left]

theorem Editing.consistent (h : Editing cfg t s done a b) : Consistent cfg (feeds t s.out) s := by
  obtain ⟨rest, hsplit⟩ := h.buf.split
  have hlt := h.buf.lt
  have hlen := h.len
  have hpos := h.pos
  rw [List.length_append] at hlt hlen
  refine ⟨h.buf.length, ⟨h.slots.length, fun slot hslot => ?_⟩, by omega, by omega, by omega, ?_, fun k hk => ?_, ?_⟩
  · obtain ⟨w, hstores⟩ := h.slots.stores slot hslot
    obtain ⟨tail, hslot⟩ := hstores.split
    exact ⟨hstores.length, hslot ▸ List.mem_append_right _ (List.mem_cons_self ..)⟩
  · rw [h.len, Int.toNat_natCast, hsplit]
    simp
  · have hin : k < (a ++ b).length := by
      rw [List.length_append]
      omega
    refine ⟨(a ++ b)[k], ?_, graphic_ne_zero (h.buf.printable _ (List.getElem_mem hin))⟩
    rw [hsplit, List.getElem?_append_left hin, List.getElem?_eq_getElem hin]
  · rw [h.line_eq, h.pos, Int.toNat_natCast, List.take_left, List.drop_left]
    exact h.screen

theorem consoleInit_editing (cell : Nat → UInt8) (col : Nat) :
    Editing cfg ⟨cell, col, .text⟩ (consoleInit cfg) [] [] [] := by
  have hempty : Stores cfg.inputLineSize (List.replicate cfg.inputLineSize 0) [] := by
    refine ⟨List.length_replicate, ⟨List.replicate (cfg.inputLineSize - 1) 0, ?_⟩, by simp⟩
    rw [List.nil_append, ← List.replicate_succ, Nat.sub_add_cancel cfg.inputLineSize_pos]
  have htext : ∀ x ∈ ascii "Console is enabled; type HELP for help.", graphic x = true := List.all_eq_true.mp (by decide)
  have hclear := @clear_line ⟨cell, col, .text⟩ _ rfl htext
  have htype := hclear.type prompt_graphic
  rw [← feeds_append] at htype
  refine ⟨hempty, rfl, rfl, ⟨List.length_replicate, fun slot hslot => ?_, fun h => ⟨0, h, rfl⟩, fun h => ⟨0, h, rfl⟩⟩,
    ⟨_, htype⟩, rfl⟩
  rw [List.eq_of_mem_replicate hslot]
  exact ⟨[], hempty⟩

theorem consoleTask_editing (cell : Nat → UInt8) (col : Nat) (input : List Int) : ∃ s a b,
    consoleTask cmds cfg input = some s ∧ Editing cfg ⟨cell, col, .text⟩ s s.executed a b := by
  induction input using List.reverseRecOn with
  | nil => exact ⟨_, [], [], rfl, consoleInit_editing cell col⟩
  | append_singleton input c ih =>
    obtain ⟨s, a, b, hrun, hediting⟩ := ih
    obtain ⟨s', a', b', done', hstep, hediting', -⟩ := @consoleHandleChar_edited cfg cmds _ s _ a b hediting c
    have hdone := hediting'.executed
    subst hdone
    refine ⟨s', a', b', ?_, hediting'⟩
    unfold consoleTask at hrun ⊢
    rw [List.foldlM_append, hrun]
    simp [hstep]

/-- After every stream of characters the editor has a result, and the terminal shows the line behind the prompt. The next
character executes nothing or the line that is shown. -/
theorem console_consistent (cmds : Commands) (cfg : Config) (cell : Nat → UInt8) (col : Nat) (input : List Int) :
    ∃ s, consoleTask cmds cfg input = some s ∧ Consistent cfg (feeds ⟨cell, col, .text⟩ s.out) s ∧
      ∀ c s', consoleHandleChar cmds cfg c s = some s' →
        s'.executed = s.executed ∨ s'.executed = s.executed ++ [s.line] := by
  obtain ⟨s, a, b, hrun, hediting⟩ := @consoleTask_editing cfg cmds cell col input
  refine ⟨s, hrun, hediting.consistent, fun c s' hstep => ?_⟩
  obtain ⟨s'', a', b', done', hstep', hediting', hdone⟩ := @consoleHandleChar_edited cfg cmds _ s _ a b hediting c
  rw [hstep] at hstep'
  cases hstep'
  rw [hediting'.executed, hediting.line_eq]
  exact hdone

/-- Commands that print graphic characters and newlines. -/
def Commands.plain (prints : List (List UInt8) → List UInt8 → List UInt8)
    (h : ∀ done line, ∀ x ∈ prints done line, graphic x = true ∨ x = newline) : Commands :=
  ⟨prints, fun done line _ hclear => hclear.text (h done line)⟩

/-- `bd`, `a` and `c` put in after moves of the cursor, and a return. -/
example : (consoleTask (.plain (fun _ _ => []) (fun _ _ _ h => absurd h List.not_mem_nil)) ⟨80, 8, by decide⟩
    [98, 100, 1, 97, 27, 91, 67, 99, 13]).map (·.executed) = some [ascii "abcd"] := by decide +kernel

end ChromeEc.Console
