import Mathlib.Data.List.GetD
import Mathlib.Data.List.Induction
import Mathlib.Data.Nat.Digits.Defs
import Mathlib.Logic.Function.Basic

/- A plain terminal: the row of the cursor, without line wrap.

  Graphic characters overwrite the cell under the cursor. A backspace and `ESC [ n D` move the
  cursor to the left, as far as the first column, and `ESC [ n C` moves it to the right; like on a
  real terminal a missing or zero count is one. A newline begins the next row and a form feed the
  next page, both blank.

  The row is read from a column `p` on as what stands before the cursor and what stands behind it,
  and blank after that (`Shows`). What is known of the row is then kept by appending and splitting
  lists: typing (`Shows.type`), going back over what was typed (`Shows.back`), the cursor moves
  (`Shows.left`, `Shows.right`), and blanks at the end that may be added or dropped
  (`Shows.blanks`). -/
namespace ChromeEc.Lib.Terminal

def blank : UInt8 := 32
def backspace : UInt8 := 8
def newline : UInt8 := 10
def formFeed : UInt8 := 12
def escape : UInt8 := 27

def graphic (x : UInt8) : Bool := decide (32 ≤ x.toNat ∧ x.toNat ≤ 126)

/-- Within an escape sequence, the count read so far. -/
inductive Mode where
  | text
  | escape
  | control (n : Nat)
deriving DecidableEq

structure Screen where
  cell : Nat → UInt8
  col : Nat
  mode : Mode

def feedText (t : Screen) (x : UInt8) : Screen :=
  if graphic x = true then { t with cell := Function.update t.cell t.col x, col := t.col + 1 }
  else if x = backspace then { t with col := t.col - 1 }
  else if x = newline ∨ x = formFeed then { t with cell := fun _ => blank, col := 0 }
  else if x = escape then { t with mode := .escape }
  else t

def feed (t : Screen) (x : UInt8) : Screen :=
  match t.mode with
  | .text => feedText t x
  | .escape => { t with mode := if x = 91 then .control 0 else .text }
  | .control n =>
    if 48 ≤ x.toNat ∧ x.toNat ≤ 57 then { t with mode := .control (10 * n + (x.toNat - 48)) }
    else if x = 67 then { t with col := t.col + max n 1, mode := .text }
    else if x = 68 then { t with col := t.col - max n 1, mode := .text }
    else { t with mode := .text }

def feeds (t : Screen) (w : List UInt8) : Screen := w.foldl feed t

/-- The digits of a number. -/
def decimal (n : Nat) : List UInt8 :=
  if n = 0 then [48] else (Nat.digits 10 n).reverse.map fun d => UInt8.ofNat (48 + d)

/-- From column `p` on the row reads `a ++ b` and is blank after that, with the cursor behind `a`. -/
structure Shows (t : Screen) (p : Nat) (a b : List UInt8) : Prop where
  cell : ∀ i, t.cell (p + i) = (a ++ b).getD i blank
  col : t.col = p + a.length
  mode : t.mode = .text

/-- Nothing stands behind the cursor. -/
def Clear (t : Screen) : Prop := Shows t t.col [] []

variable {t : Screen} {p n : Nat} {a b w : List UInt8} {x : UInt8}

theorem feeds_nil : feeds t [] = t := rfl

theorem feeds_cons : feeds t (x :: w) = feeds (feed t x) w := rfl

theorem feeds_append {v : List UInt8} : feeds t (w ++ v) = feeds (feeds t w) v := List.foldl_append

/-! ## Characters -/

theorem feed_graphic (hmode : t.mode = .text) (hx : graphic x = true) :
    feed t x = { t with cell := Function.update t.cell t.col x, col := t.col + 1 } := by
  simp only [feed, hmode, feedText, if_pos hx]

theorem mode_feeds (hmode : t.mode = .text) (hw : ∀ x ∈ w, graphic x = true) : (feeds t w).mode = .text := by
  induction w generalizing t with
  | nil => exact hmode
  | cons x w ih =>
    rw [List.forall_mem_cons] at hw
    rw [feeds_cons, feed_graphic hmode hw.1]
    exact ih hmode hw.2

theorem feed_newline (hmode : t.mode = .text) : Shows (feed t newline) 0 [] [] := by
  have hrow : feed t newline = { t with cell := fun _ => blank, col := 0 } := by
    simp [feed, hmode, feedText, graphic, newline, backspace]
  rw [hrow]
  exact ⟨fun i => rfl, rfl, hmode⟩

theorem feed_formFeed (hmode : t.mode = .text) : Shows (feed t formFeed) 0 [] [] := by
  have hrow : feed t formFeed = { t with cell := fun _ => blank, col := 0 } := by
    simp [feed, hmode, feedText, graphic, formFeed, backspace]
  rw [hrow]
  exact ⟨fun i => rfl, rfl, hmode⟩

theorem Shows.put (h : Shows t p a b) (hx : graphic x = true) : Shows (feed t x) p (a ++ [x]) (b.drop 1) := by
  rw [feed_graphic h.mode hx]
  refine ⟨fun i => ?_, ?_, h.mode⟩
  · show Function.update t.cell t.col x (p + i) = _
    rw [h.col, Function.update_apply]
    by_cases hi : i = a.length
    · simp [hi, List.getD_eq_getElem?_getD]
    · rw [if_neg (by omega), h.cell]
      rcases Nat.lt_or_gt_of_ne hi with hlt | hgt
      · simp [List.getD_eq_getElem?_getD, List.getElem?_append_left hlt]
      · -- Behind the new character nothing has moved.
        obtain ⟨k, rfl⟩ := Nat.exists_eq_add_of_lt hgt
        have hsplit : a.length + k + 1 = a.length + (k + 1) := Nat.add_assoc _ _ _
        rw [List.append_assoc, hsplit]
        simp [List.getD_eq_getElem?_getD, List.getElem?_append_right]
  · show t.col + 1 = p + (a ++ [x]).length
    rw [h.col, List.length_append, List.length_singleton, Nat.add_assoc]

theorem Shows.type (h : Shows t p a b) (hw : ∀ x ∈ w, graphic x = true) :
    Shows (feeds t w) p (a ++ w) (b.drop w.length) := by
  induction w generalizing t a b with
  | nil => rwa [List.append_nil]
  | cons x w ih =>
    rw [List.forall_mem_cons] at hw
    have hrest := ih (h.put hw.1) hw.2
    rwa [List.append_assoc, List.singleton_append, List.drop_drop, Nat.add_comm] at hrest

theorem Shows.congr (h : Shows t p a b) {b' : List UInt8} (hb : ∀ i, b.getD i blank = b'.getD i blank) :
    Shows t p a b' := by
  refine ⟨fun i => ?_, h.col, h.mode⟩
  rw [h.cell]
  by_cases hi : i < a.length
  · simp [List.getD_eq_getElem?_getD, List.getElem?_append_left hi]
  · have hrest := hb (i - a.length)
    rw [List.getD_eq_getElem?_getD, List.getD_eq_getElem?_getD] at hrest
    simp only [List.getD_eq_getElem?_getD, List.getElem?_append_right (Nat.le_of_not_lt hi), hrest]

theorem Shows.blanks (h : Shows t p a (b ++ List.replicate n blank)) : Shows t p a b := by
  refine h.congr fun i => ?_
  by_cases hi : i < b.length
  · simp [List.getD_eq_getElem?_getD, List.getElem?_append_left hi]
  · rw [List.getD_eq_getElem?_getD, List.getElem?_append_right (Nat.le_of_not_lt hi), List.getElem?_replicate,
      List.getD_eq_default _ _ (Nat.le_of_not_lt hi)]
    split <;> rfl

/-! ## Moves of the cursor -/

theorem Shows.back (h : Shows t p (a ++ w) b) : Shows (feeds t (List.replicate w.length backspace)) p a (w ++ b) := by
  induction w using List.reverseRecOn generalizing t b with
  | nil => rwa [List.append_nil] at h
  | append_singleton w x ih =>
    have hfeed : feed t backspace = { t with col := t.col - 1 } := by
      simp [feed, h.mode, feedText, graphic, backspace]
    have hone : Shows (feed t backspace) p (a ++ w) (x :: b) := by
      rw [hfeed]
      refine ⟨fun i => ?_, ?_, h.mode⟩
      · rw [h.cell, List.append_assoc, List.append_assoc, List.append_assoc, List.singleton_append]
      · show t.col - 1 = p + (a ++ w).length
        rw [h.col, ← List.append_assoc, List.length_append, List.length_singleton]
        omega
    have hrest := ih hone
    rwa [List.length_append, List.length_singleton, List.replicate_succ, feeds_cons, List.append_assoc,
      List.singleton_append]

theorem feeds_digits {l : List Nat} (hl : ∀ d ∈ l, d < 10) :
    feeds { t with mode := .control 0 } (l.reverse.map fun d => UInt8.ofNat (48 + d)) =
      { t with mode := .control (Nat.ofDigits 10 l) } := by
  induction l with
  | nil => rfl
  | cons d l ih =>
    rw [List.forall_mem_cons] at hl
    have hvalue : (UInt8.ofNat (48 + d)).toNat = 48 + d := by
      rw [UInt8.toNat_ofNat']
      omega
    rw [List.reverse_cons, List.map_append, feeds_append, ih hl.2, List.map_singleton, feeds_cons, feeds_nil]
    simp only [feed, hvalue]
    rw [if_pos (by omega), Nat.ofDigits_cons, Nat.add_sub_cancel_left, Nat.add_comm]

theorem feeds_decimal : feeds { t with mode := .control 0 } (decimal n) = { t with mode := .control n } := by
  unfold decimal
  by_cases hn : n = 0
  · rw [if_pos hn, hn]
    rfl
  · rw [if_neg hn, feeds_digits fun d hd => Nat.digits_lt_base (by decide) hd, Nat.ofDigits_digits]

theorem feeds_control (hmode : t.mode = .text) : feeds t (escape :: 91 :: decimal n) = { t with mode := .control n } := by
  have hescape : feed t escape = { t with mode := .escape } := by
    simp [feed, hmode, feedText, graphic, escape, backspace, newline, formFeed]
  rw [feeds_cons, hescape, feeds_cons]
  exact feeds_decimal

theorem Shows.left (h : Shows t p (a ++ w) b) (hw : w ≠ []) :
    Shows (feeds t (escape :: 91 :: decimal w.length ++ [68])) p a (w ++ b) := by
  have hpos := List.length_pos_iff.mpr hw
  rw [feeds_append, feeds_control h.mode, feeds_cons, feeds_nil]
  refine ⟨fun i => ?_, ?_, rfl⟩
  · rw [← List.append_assoc]
    exact h.cell i
  · show t.col - max w.length 1 = p + a.length
    rw [h.col, List.length_append]
    omega

theorem Shows.right (h : Shows t p a (w ++ b)) (hw : w ≠ []) :
    Shows (feeds t (escape :: 91 :: decimal w.length ++ [67])) p (a ++ w) b := by
  have hpos := List.length_pos_iff.mpr hw
  rw [feeds_append, feeds_control h.mode, feeds_cons, feeds_nil]
  refine ⟨fun i => ?_, ?_, rfl⟩
  · rw [List.append_assoc]
    exact h.cell i
  · show t.col + max w.length 1 = p + (a ++ w).length
    rw [h.col, List.length_append]
    omega

/-! ## Edits of a row -/

/-- Back over the last character, the rest again, and a blank for what was last. -/
theorem Shows.erase (h : Shows t p (a ++ [x]) b) (hb : ∀ x ∈ b, graphic x = true) :
    Shows (feeds t (backspace :: (b ++ blank :: List.replicate (b.length + 1) backspace))) p a b := by
  have hback : Shows (feed t backspace) p a (x :: b) := h.back
  have htype := hback.type hb
  have hblank : Shows (feed (feeds (feed t backspace) b) blank) p (a ++ (b ++ [blank]))
      ((x :: b).drop (b.length + 1)) := by
    have hput := htype.put (x := blank) (by decide)
    rwa [List.append_assoc, List.drop_drop] at hput
  -- The cursor is behind the row now, and goes back over the rest and the blank.
  rw [List.drop_of_length_le (by simp)] at hblank
  have hend := hblank.back
  rw [List.length_append, List.length_singleton, List.append_nil] at hend
  have hone : Shows _ p a (b ++ List.replicate 1 blank) := hend
  rw [feeds_cons, feeds_append, feeds_cons]
  exact hone.blanks

/-- A character, the rest again, and back over the rest. -/
theorem Shows.insert (h : Shows t p a b) (hx : graphic x = true) (hb : ∀ x ∈ b, graphic x = true) :
    Shows (feeds t (x :: (b ++ List.replicate b.length backspace))) p (a ++ [x]) b := by
  have htype := (h.put hx).type hb
  rw [List.drop_drop, List.drop_of_length_le (by omega)] at htype
  have hend := htype.back
  rw [List.append_nil] at hend
  rwa [feeds_cons, feeds_append]

theorem Shows.cut (h : Shows t p a b) :
    Shows (feeds t (List.replicate b.length blank ++ List.replicate b.length backspace)) p a [] := by
  have htype := h.type (w := List.replicate b.length blank) fun x hx => by
    rw [List.eq_of_mem_replicate hx]
    decide
  rw [List.length_replicate, List.drop_length] at htype
  have hend := htype.back
  rw [List.length_replicate, List.append_nil, ← List.nil_append (List.replicate b.length blank)] at hend
  rw [feeds_append]
  exact hend.blanks

theorem Shows.replace (h : Shows t p a b) (hw : ∀ x ∈ w, graphic x = true) :
    Shows (feeds t (w ++ (List.replicate (b.length - w.length) blank ++ List.replicate (b.length - w.length) backspace)))
      p (a ++ w)
      [] := by
  have hcut := (h.type hw).cut
  rwa [List.length_drop, ← feeds_append] at hcut

theorem Shows.redraw (hmode : t.mode = .text) (ha : ∀ x ∈ a, graphic x = true) (hb : ∀ x ∈ b, graphic x = true) :
    Shows (feeds t (formFeed :: (a ++ (b ++ List.replicate b.length backspace)))) 0 a b := by
  have hfirst : Shows (feeds (feed t formFeed) a) 0 a [] := by
    have htype := (feed_formFeed hmode).type ha
    rwa [List.nil_append, List.drop_nil] at htype
  have hboth := hfirst.type hb
  rw [List.drop_nil] at hboth
  have hend := hboth.back
  rwa [List.append_nil, ← feeds_append, ← feeds_append, ← feeds_cons] at hend

/-! ## Text of whole rows -/

theorem Shows.clear (h : Shows t p a []) : Clear t := by
  refine ⟨fun i => ?_, rfl, h.mode⟩
  rw [h.col, Nat.add_assoc, h.cell, List.append_nil]
  exact List.getD_eq_default _ _ (Nat.le_add_right _ _)

theorem Clear.text (h : Clear t) (hw : ∀ x ∈ w, graphic x = true ∨ x = newline) : Clear (feeds t w) := by
  induction w generalizing t with
  | nil => exact h
  | cons x w ih =>
    rw [List.forall_mem_cons] at hw
    refine ih ?_ hw.2
    rcases hw.1 with hx | rfl
    · exact (h.put hx).clear
    · exact (feed_newline h.mode).clear

end ChromeEc.Lib.Terminal
