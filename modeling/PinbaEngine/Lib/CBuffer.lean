import Mathlib.Data.List.Basic
import Mathlib.Data.List.TakeWhile

/-! # Strings in memory

    A buffer of bytes with cursors into it. The string at a cursor ends before the first
    zero byte. A parser that works in place looks for separators with `strchr`,
    overwrites some of them with zeros and moves its cursors behind them.

    `Shows buf p text` says which string is at a cursor. The rules follow the moves of
    such a parser: a text `w ++ c :: rest` is cut at its first `c`.
-/

namespace CBuffer

/-- `strchr`, from a cursor to where the character or the end of the string is. -/
def strchrFrom : List UInt8 → UInt8 → Nat → Option Nat
  | [], _, _ => none
  | x :: xs, c, p => if x = c then some p else if x = 0 then none else strchrFrom xs c (p + 1)

def strchr (buf : List UInt8) (p : Nat) (c : UInt8) : Option Nat := strchrFrom (buf.drop p) c p

/-- `strdup`. -/
def strdup (buf : List UInt8) (p : Nat) : List UInt8 := (buf.drop p).takeWhile (· ≠ 0)

/-- `strndup`. -/
def strndup (buf : List UInt8) (p n : Nat) : List UInt8 := ((buf.drop p).take n).takeWhile (· ≠ 0)

/-- `std::string_view(p, n)`. -/
def view (buf : List UInt8) (p n : Nat) : List UInt8 := (buf.drop p).take n

/-- `*p = '\0'`. -/
def cut (buf : List UInt8) (p : Nat) : List UInt8 := buf.set p 0

/-- The string at a cursor. -/
def Shows (buf : List UInt8) (p : Nat) (text : List UInt8) : Prop :=
  0 ∉ text ∧ ∃ rest, buf.drop p = text ++ 0 :: rest

variable {buf text w rest : List UInt8} {p : Nat} {c : UInt8}

/-! ## Section 1: Reading -/

theorem shows_terminated (h : 0 ∉ text) : Shows (text ++ [0]) 0 text := ⟨h, [], rfl⟩

theorem strdup_of_shows (h : Shows buf p text) : strdup buf p = text := by
  obtain ⟨hnul, rest, hdrop⟩ := h
  rw [strdup, hdrop, List.takeWhile_append_of_pos fun x hx => by simpa using fun h0 : x = 0 => hnul (h0 ▸ hx),
    List.takeWhile_cons_of_neg (by simp), List.append_nil]

theorem view_of_shows (h : Shows buf p (w ++ rest)) : view buf p w.length = w := by
  obtain ⟨-, behind, hdrop⟩ := h
  rw [view, hdrop, List.append_assoc, List.take_left']
  rfl

theorem strndup_of_shows (h : Shows buf p (w ++ rest)) : strndup buf p w.length = w := by
  have hview : (buf.drop p).take w.length = w := view_of_shows h
  rw [strndup, hview, List.takeWhile_eq_self_iff]
  intro x hx
  simpa using fun h0 : x = 0 => h.1 (List.mem_append_left rest (h0 ▸ hx))

theorem getElem?_of_shows_cons (h : Shows buf p (c :: rest)) : buf[p]? = some c := by
  obtain ⟨-, behind, hdrop⟩ := h
  rw [← Nat.add_zero p, ← List.getElem?_drop, hdrop]
  rfl

theorem getElem?_of_shows_nil (h : Shows buf p []) : buf[p]? = some 0 := by
  obtain ⟨-, behind, hdrop⟩ := h
  rw [← Nat.add_zero p, ← List.getElem?_drop, hdrop]
  rfl

/-! ## Section 2: Looking for a separator -/

theorem strchrFrom_append (hw : ∀ x ∈ w, x ≠ c ∧ x ≠ 0) (xs : List UInt8) :
    strchrFrom (w ++ xs) c p = strchrFrom xs c (p + w.length) := by
  induction w generalizing p with
  | nil => rfl
  | cons x w ih =>
    obtain ⟨hc, h0⟩ := hw x List.mem_cons_self
    rw [List.cons_append, strchrFrom, if_neg hc, if_neg h0, ih fun y hy => hw y (List.mem_cons_of_mem _ hy),
      List.length_cons, Nat.add_right_comm, Nat.add_assoc]

theorem strchr_of_shows_cons (h : Shows buf p (w ++ c :: rest)) (hc : c ∉ w) :
    strchr buf p c = some (p + w.length) := by
  obtain ⟨hnul, behind, hdrop⟩ := h
  have hw : ∀ x ∈ w, x ≠ c ∧ x ≠ 0 := fun x hx =>
    ⟨fun hxc => hc (hxc ▸ hx), fun hx0 => hnul (List.mem_append_left _ (hx0 ▸ hx))⟩
  rw [strchr, hdrop, List.append_assoc, strchrFrom_append hw, List.cons_append, strchrFrom, if_pos rfl]

theorem strchr_of_notMem (h : Shows buf p text) (hc : c ∉ text) (h0 : c ≠ 0) : strchr buf p c = none := by
  obtain ⟨hnul, behind, hdrop⟩ := h
  have htext : ∀ x ∈ text, x ≠ c ∧ x ≠ 0 := fun x hx => ⟨fun hxc => hc (hxc ▸ hx), fun hx0 => hnul (hx0 ▸ hx)⟩
  rw [strchr, hdrop, strchrFrom_append htext, strchrFrom, if_neg h0.symm, if_pos rfl]

/-! ## Section 3: Cutting and moving on -/

theorem shows_skip (h : Shows buf p (w ++ c :: rest)) : Shows buf (p + w.length + 1) rest := by
  obtain ⟨hnul, behind, hdrop⟩ := h
  refine ⟨fun h0 => hnul (List.mem_append_right w (List.mem_cons_of_mem c h0)), behind, ?_⟩
  calc buf.drop (p + w.length + 1)
      = (buf.drop p).drop (w.length + 1) := by rw [List.drop_drop, Nat.add_assoc]
    _ = ((w ++ [c]) ++ (rest ++ 0 :: behind)).drop (w ++ [c]).length := by rw [hdrop]; simp
    _ = rest ++ 0 :: behind := List.drop_left

theorem shows_cut (h : Shows buf p (w ++ c :: rest)) : Shows (cut buf (p + w.length)) p w := by
  obtain ⟨hnul, behind, hdrop⟩ := h
  refine ⟨fun h0 => hnul (List.mem_append_left _ h0), rest ++ 0 :: behind, ?_⟩
  rw [cut, List.drop_set, if_neg (by omega), Nat.add_sub_cancel_left, hdrop, List.append_assoc,
    List.set_append_right _ _ le_rfl, Nat.sub_self]
  rfl

/-- Behind the cut the buffer is as before. -/
theorem shows_behind_cut (h : Shows buf p (w ++ c :: rest)) :
    Shows (cut buf (p + w.length)) (p + w.length + 1) rest := by
  obtain ⟨hnul, behind, hdrop⟩ := shows_skip h
  refine ⟨hnul, behind, ?_⟩
  rw [cut, List.drop_set, if_pos (by omega), hdrop]

end CBuffer
