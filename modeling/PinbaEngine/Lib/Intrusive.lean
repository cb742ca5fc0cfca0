import Mathlib

/-! # Intrusive doubly linked lists

    Nodes of a memory are linked by two pointers each. `IsList` says that a head
    and a tail pointer frame a well-formed list and names its nodes in order. The
    lemmas say what a sequence of pointer writes at one end of a list does to it,
    and that writes to other nodes do nothing.

    The two directions are treated alike: a list is a chain of `next` pointers
    from the front, and a chain of `prev` pointers from the back. Every operation
    at one end prolongs or cuts one chain at its end and the other at its start.
-/

namespace Intrusive

variable {A P : Type*}

/-! ## Section 1: Chains -/

/-- Every node points to the one after it, the last one to nothing. -/
def Chain (f : A → Option A) : List A → Prop
  | [] => True
  | a :: rest => f a = rest.head? ∧ Chain f rest

section chains
variable {f g : A → Option A} {a : A} {xs : List A}

theorem Chain.congr (h : Chain f xs) (hfg : ∀ b ∈ xs, g b = f b) : Chain g xs := by
  induction xs with
  | nil => trivial
  | cons x xs ih =>
    exact ⟨(hfg x List.mem_cons_self).trans h.1,
      ih h.2 fun b hb => hfg b (List.mem_cons_of_mem _ hb)⟩

/-- The first node of a longer chain is not its last. -/
theorem ne_getLast_of_cons {x y : A} {ys : List A} (hnd : (x :: y :: ys).Nodup) :
    some x ≠ (y :: ys).getLast? := by
  intro h
  exact (List.nodup_cons.mp hnd).1 (List.mem_of_getLast? h.symm)

/-- The last node of a chain is redirected to a new one. -/
theorem Chain.snoc (h : Chain f xs) (hnd : xs.Nodup) (hlast : ∀ b ∈ xs.getLast?, g b = some a)
    (hrest : ∀ b ∈ xs, some b ≠ xs.getLast? → g b = f b) (ha : g a = none) :
    Chain g (xs ++ [a]) := by
  induction xs with
  | nil => exact ⟨ha, trivial⟩
  | cons x xs ih =>
    cases xs with
    | nil => exact ⟨hlast x rfl, ha, trivial⟩
    | cons y ys =>
      rw [List.getLast?_cons_cons] at hlast hrest
      refine ⟨(hrest x List.mem_cons_self (ne_getLast_of_cons hnd)).trans h.1, ?_⟩
      exact ih h.2 (List.nodup_cons.mp hnd).2 hlast fun b hb =>
        hrest b (List.mem_cons_of_mem _ hb)

/-- The chain ends one node earlier. -/
theorem Chain.init (h : Chain f (xs ++ [a])) (hnd : xs.Nodup)
    (hlast : ∀ b ∈ xs.getLast?, g b = none)
    (hrest : ∀ b ∈ xs, some b ≠ xs.getLast? → g b = f b) : Chain g xs := by
  induction xs with
  | nil => trivial
  | cons x xs ih =>
    cases xs with
    | nil => exact ⟨hlast x rfl, trivial⟩
    | cons y ys =>
      rw [List.getLast?_cons_cons] at hlast hrest
      refine ⟨(hrest x List.mem_cons_self (ne_getLast_of_cons hnd)).trans h.1, ?_⟩
      exact ih h.2 (List.nodup_cons.mp hnd).2 hlast fun b hb =>
        hrest b (List.mem_cons_of_mem _ hb)

end chains

/-! ## Section 2: Memory -/

/-- A node. -/
structure Cell (A P : Type*) where
  payload : P
  next : Option A
  prev : Option A

/-- What is stored at an address. -/
abbrev Memory (A P : Type*) := A → Cell A P

section memory
variable [DecidableEq A] (mem : Memory A P) (a : A)

def setNext (v : Option A) : Memory A P := Function.update mem a { mem a with next := v }

def setPrev (v : Option A) : Memory A P := Function.update mem a { mem a with prev := v }

def setPayload (v : P) : Memory A P := Function.update mem a { mem a with payload := v }

variable {mem a} {b : A} {v : Option A} {p : P}

/-- A field that a write leaves alone. -/
theorem field_update_of_eq {V : Type*} (field : Cell A P → V) {c : Cell A P} (h : field c = field (mem a)) :
    field (Function.update mem a c b) = field (mem b) := by
  rw [Function.update_apply]
  split
  · next hb => rw [hb, h]
  · rfl

@[simp] theorem next_setNext : ((setNext mem a v) b).next = if b = a then v else (mem b).next := by
  rw [setNext, Function.update_apply]
  split <;> rfl

@[simp] theorem prev_setNext : ((setNext mem a v) b).prev = (mem b).prev :=
  field_update_of_eq Cell.prev rfl

@[simp] theorem payload_setNext : ((setNext mem a v) b).payload = (mem b).payload :=
  field_update_of_eq Cell.payload rfl

/-- Written twice. -/
@[simp] theorem setNext_setNext : setNext (setNext mem a v) a v = setNext mem a v := by
  simp [setNext]

@[simp] theorem next_setPrev : ((setPrev mem a v) b).next = (mem b).next :=
  field_update_of_eq Cell.next rfl

@[simp] theorem prev_setPrev : ((setPrev mem a v) b).prev = if b = a then v else (mem b).prev := by
  rw [setPrev, Function.update_apply]
  split <;> rfl

@[simp] theorem payload_setPrev : ((setPrev mem a v) b).payload = (mem b).payload :=
  field_update_of_eq Cell.payload rfl

@[simp] theorem next_setPayload : ((setPayload mem a p) b).next = (mem b).next :=
  field_update_of_eq Cell.next rfl

@[simp] theorem prev_setPayload : ((setPayload mem a p) b).prev = (mem b).prev :=
  field_update_of_eq Cell.prev rfl

@[simp] theorem payload_setPayload :
    ((setPayload mem a p) b).payload = if b = a then p else (mem b).payload := by
  rw [setPayload, Function.update_apply]
  split <;> rfl

end memory

/-! ## Section 3: Lists -/

/-- The nodes `xs`, in this order, are a list between the two pointers. -/
structure IsList (mem : Memory A P) (head tail : Option A) (xs : List A) : Prop where
  head : head = xs.head?
  tail : tail = xs.getLast?
  next : Chain (fun a => (mem a).next) xs
  prev : Chain (fun a => (mem a).prev) xs.reverse
  nodup : xs.Nodup

namespace IsList

variable {mem mem' : Memory A P} {head tail : Option A} {xs : List A} {a b : A}

theorem nil : IsList mem none none [] := ⟨rfl, rfl, trivial, trivial, .nil⟩

/-- Writes to other nodes. -/
theorem frame (h : IsList mem head tail xs) (hnext : ∀ b ∈ xs, (mem' b).next = (mem b).next)
    (hprev : ∀ b ∈ xs, (mem' b).prev = (mem b).prev) : IsList mem' head tail xs :=
  ⟨h.head, h.tail, h.next.congr hnext,
    h.prev.congr fun b hb => hprev b (List.mem_reverse.mp hb), h.nodup⟩

theorem eq_nil_of_tail (h : IsList mem head none xs) : xs = [] :=
  List.getLast?_eq_none_iff.mp h.tail.symm

theorem eq_nil_of_head (h : IsList mem none tail xs) : xs = [] :=
  List.head?_eq_none_iff.mp h.head.symm

/-- A list with a tail ends with it. -/
theorem eq_snoc (h : IsList mem head (some a) xs) : ∃ ys, xs = ys ++ [a] :=
  ⟨xs.dropLast, (List.dropLast_append_getLast? a h.tail.symm).symm⟩

/-- The last node points back to the one before. -/
theorem prev_last {ys : List A} (h : IsList mem head tail (ys ++ [a])) :
    (mem a).prev = ys.getLast? := by
  have hprev := h.prev
  rw [List.reverse_append] at hprev
  exact hprev.1.trans List.head?_reverse

/-- A node is put before the first one. -/
theorem pushFront (h : IsList mem head tail xs) (ha : a ∉ xs)
    (hnext : (mem' a).next = head) (hprev : (mem' a).prev = none)
    (hfirst : ∀ b ∈ head, (mem' b).prev = some a)
    (hnexts : ∀ b ∈ xs, (mem' b).next = (mem b).next)
    (hprevs : ∀ b ∈ xs, some b ≠ head → (mem' b).prev = (mem b).prev) :
    IsList mem' (some a) (tail.or (some a)) (a :: xs) := by
  refine ⟨rfl, ?_, ⟨hnext.trans h.head, h.next.congr hnexts⟩, ?_, List.nodup_cons.mpr ⟨ha, h.nodup⟩⟩
  · rw [h.tail, List.getLast?_cons]
    cases xs.getLast? <;> rfl
  · rw [List.reverse_cons]
    have hlast : xs.reverse.getLast? = head := by rw [List.getLast?_reverse, h.head]
    refine h.prev.snoc (List.nodup_reverse.mpr h.nodup) ?_ ?_ hprev
    · rw [hlast]
      exact hfirst
    · rw [hlast]
      exact fun b hb => hprevs b (List.mem_reverse.mp hb)

/-- A node is put after the last one. -/
theorem pushBack (h : IsList mem head tail xs) (ha : a ∉ xs)
    (hprev : (mem' a).prev = tail) (hnext : (mem' a).next = none)
    (hlast : ∀ b ∈ tail, (mem' b).next = some a)
    (hprevs : ∀ b ∈ xs, (mem' b).prev = (mem b).prev)
    (hnexts : ∀ b ∈ xs, some b ≠ tail → (mem' b).next = (mem b).next) :
    IsList mem' (head.or (some a)) (some a) (xs ++ [a]) := by
  have hnd : (xs ++ [a]).Nodup := by
    rw [List.nodup_append']
    exact ⟨h.nodup, List.nodup_singleton a, List.disjoint_singleton.mpr ha⟩
  refine ⟨?_, by simp, ?_, ?_, hnd⟩
  · rw [h.head]
    cases xs <;> rfl
  · refine h.next.snoc h.nodup ?_ ?_ hnext
    · rw [← h.tail]
      exact hlast
    · rw [← h.tail]
      exact hnexts
  · rw [List.reverse_append]
    exact ⟨hprev.trans (h.tail.trans List.head?_reverse.symm),
      h.prev.congr fun b hb => hprevs b (List.mem_reverse.mp hb)⟩

/-- The last node is taken off. -/
theorem popBack {ys : List A} (h : IsList mem head tail (ys ++ [a]))
    (hlast : ∀ b ∈ ys.getLast?, (mem' b).next = none)
    (hprevs : ∀ b ∈ ys, (mem' b).prev = (mem b).prev)
    (hnexts : ∀ b ∈ ys, some b ≠ ys.getLast? → (mem' b).next = (mem b).next) :
    IsList mem' (if ys = [] then none else head) ys.getLast? ys := by
  have hnd : ys.Nodup := (List.nodup_append'.mp h.nodup).1
  refine ⟨?_, rfl, h.next.init hnd hlast hnexts, ?_, hnd⟩
  · rw [h.head]
    cases ys <;> simp
  · have hprev := h.prev
    rw [List.reverse_append] at hprev
    exact hprev.2.congr fun b hb => hprevs b (List.mem_reverse.mp hb)

section single_writes
variable [DecidableEq A] {p : A} {v : Option A} {ys : List A}

theorem frame_setNext (h : IsList mem head tail xs) (hp : p ∉ xs) :
    IsList (setNext mem p v) head tail xs := by
  refine h.frame ?_ ?_
  · intro b hb
    have hbp : b ≠ p := fun heq => hp (heq ▸ hb)
    rw [next_setNext, if_neg hbp]
  · exact fun _ _ => prev_setNext

/-- To take the last node off, the one before is made the last. -/
theorem popBack_setNext (h : IsList mem head tail (ys ++ [a])) (hp : (mem a).prev = some p) :
    IsList (setNext mem p none) head (some p) ys := by
  have hlast : ys.getLast? = some p := h.prev_last.symm.trans hp
  have hne : ys ≠ [] := List.ne_nil_of_mem (List.mem_of_getLast? hlast)
  have hpop : IsList (setNext mem p none) (if ys = [] then none else head) ys.getLast? ys := by
    refine h.popBack ?_ (fun _ _ => prev_setNext) ?_
    · rw [hlast]
      rintro b ⟨⟩
      rw [next_setNext, if_pos rfl]
    · rw [hlast]
      intro b hb hbp
      rw [next_setNext, if_neg fun heq => hbp (congrArg some heq)]
  rwa [if_neg hne, hlast] at hpop

end single_writes

end IsList

end Intrusive
