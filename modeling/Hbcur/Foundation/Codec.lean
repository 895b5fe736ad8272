import Mathlib.Data.List.Basic

/-!
# Reading back what was written

A reader consumes a prefix of a word and returns the rest.  `Reads read word
value` says that in front of any rest the reader consumes exactly `word` and
returns `value`, so sequences of fields can be read back one after another.
-/

namespace Hbcur
namespace Foundation

variable {symbol value : Type}

def Reads (read : List symbol -> Option (value × List symbol)) (word : List symbol)
    (v : value) : Prop :=
  forall rest, read (word ++ rest) = some (v, rest)

/-!
# Fields in sequence
-/

section Sequence

variable {value' : Type}

/-- Read a field, and go on with its value. -/
def readThen (read : List symbol -> Option (value × List symbol))
    (next : value -> List symbol -> Option (value' × List symbol)) (word : List symbol) :
    Option (value' × List symbol) :=
  match read word with
  | none => none
  | some (v, rest) => next v rest

/-- Nothing is left to read. -/
def readDone (v : value) (word : List symbol) : Option (value × List symbol) := some (v, word)

/-- A field which is there under a condition, and has a default otherwise. -/
def readIf (present : Bool) (read : List symbol -> Option (value × List symbol)) (default : value)
    (word : List symbol) : Option (value × List symbol) :=
  if present then read word else some (default, word)

theorem reads_readThen {read : List symbol -> Option (value × List symbol)}
    {next : value -> List symbol -> Option (value' × List symbol)} {word word' : List symbol}
    {v : value} {v' : value'} (hread : Reads read word v) (hnext : Reads (next v) word' v') :
    Reads (readThen read next) (word ++ word') v' := by
  intro rest
  have h := hread (word' ++ rest)
  simp only [readThen, List.append_assoc, h, hnext rest]

theorem reads_readDone (v : value) : Reads (readDone v) ([] : List symbol) v :=
  fun _ => rfl

/-- A last field, from which the whole value is made. -/
theorem reads_last {read : List symbol -> Option (value × List symbol)} {word : List symbol}
    {v : value} (f : value -> value') (h : Reads read word v) :
    Reads (readThen read fun v => readDone (f v)) word (f v) := by
  intro rest
  simp only [readThen, h rest, readDone]

theorem reads_readIf {read : List symbol -> Option (value × List symbol)} {word : List symbol}
    {v : value} (present : Bool) (default : value) (h : Reads read word v) :
    Reads (readIf present read default) (if present then word else [])
      (if present then v else default) := by
  cases present with
  | false => exact fun _ => rfl
  | true => exact h

end Sequence

/-!
# Fixed and repeated fields
-/

/-- Take a fixed number of symbols. -/
def readExactly (count : Nat) (word : List symbol) :
    Option (List symbol × List symbol) :=
  if count ≤ word.length then some (word.take count, word.drop count) else none

theorem reads_readExactly (word : List symbol) :
    Reads (readExactly word.length) word word := by
  intro rest
  unfold readExactly
  rw [if_pos (by simp), List.take_left, List.drop_left]

/-- Read a fixed number of values. -/
def readMany (read : List symbol -> Option (value × List symbol)) :
    Nat -> List symbol -> Option (List value × List symbol)
  | 0, word => some ([], word)
  | count + 1, word =>
      match read word with
      | none => none
      | some (v, word') =>
          match readMany read count word' with
          | none => none
          | some (vs, word'') => some (v :: vs, word'')

theorem reads_readMany {read : List symbol -> Option (value × List symbol)}
    {write : value -> List symbol} {normal : value -> value} (vs : List value)
    (h : forall v, v ∈ vs -> Reads read (write v) (normal v)) :
    Reads (readMany read vs.length) (vs.flatMap write) (vs.map normal) := by
  induction vs with
  | nil =>
      intro rest
      rfl
  | cons v vs ih =>
      intro rest
      have hhead := h v List.mem_cons_self (vs.flatMap write ++ rest)
      have htail := ih (fun v' hmem => h v' (List.mem_cons_of_mem v hmem)) rest
      simp only [List.flatMap_cons, List.append_assoc, List.length_cons, readMany,
        hhead, htail, List.map_cons]

/-- Every value read in a sequence was read by the reader of one value. -/
theorem forall_of_readMany {read : List symbol -> Option (value × List symbol)}
    {good : value -> Prop}
    (hgood : forall word v rest, read word = some (v, rest) -> good v) :
    forall (count : Nat) (word : List symbol) (vs : List value) (rest : List symbol),
      readMany read count word = some (vs, rest) -> forall v, v ∈ vs -> good v := by
  intro count
  induction count with
  | zero =>
      intro word vs rest hread v hmem
      simp only [readMany, Option.some.injEq, Prod.mk.injEq] at hread
      rw [← hread.1] at hmem
      cases hmem
  | succ count ih =>
      intro word vs rest hread v hmem
      unfold readMany at hread
      cases hone : read word with
      | none =>
          rw [hone] at hread
          cases hread
      | some first =>
          rcases first with ⟨v0, word'⟩
          simp only [hone] at hread
          cases hrest : readMany read count word' with
          | none =>
              rw [hrest] at hread
              cases hread
          | some others =>
              rcases others with ⟨vs', word''⟩
              simp only [hrest, Option.some.injEq, Prod.mk.injEq] at hread
              rw [← hread.1] at hmem
              rcases List.mem_cons.mp hmem with hhead | htail
              · rw [hhead]
                exact hgood word v0 word' hone
              · exact ih word' vs' word'' hrest v htail

/-!
# Words which end with a count

The reader knows how many of the symbols are marked, and the last symbol is marked unless there is
none.
-/

section Counted

variable (mark : symbol -> Bool)

def readCounted : Nat -> List symbol -> Option (List symbol × List symbol)
  | 0, word => some ([], word)
  | _ + 1, [] => none
  | count + 1, s :: word =>
      match readCounted (if mark s then count else count + 1) word with
      | none => none
      | some (found, rest) => some (s :: found, rest)

theorem readCounted_cons {count : Nat} {s : symbol} {word found rest : List symbol}
    (h : readCounted mark (if mark s then count else count + 1) word = some (found, rest)) :
    readCounted mark (count + 1) (s :: word) = some (s :: found, rest) := by
  rw [readCounted, h]

theorem reads_readCounted :
    forall (word : List symbol), (forall s, word.getLast? = some s -> mark s = true) ->
      Reads (readCounted mark (word.countP mark)) word word := by
  intro word
  induction word with
  | nil =>
      intro _ rest
      rw [List.countP_nil, List.nil_append, readCounted]
  | cons s word ih =>
      intro hlast rest
      have htail : forall t, word.getLast? = some t -> mark t = true := by
        intro t ht
        apply hlast t
        rw [List.getLast?_cons, ht]
        rfl
      have hread := ih htail rest
      have hpos : exists count, (s :: word).countP mark = count + 1 := by
        apply Nat.exists_eq_succ_of_ne_zero
        apply Nat.ne_of_gt
        apply List.countP_pos_iff.mpr
        exists (s :: word).getLast (List.cons_ne_nil s word)
        exact ⟨List.getLast_mem _, hlast _ (List.getLast?_eq_some_getLast _)⟩
      rcases hpos with ⟨count, hcount⟩
      rw [hcount, List.cons_append]
      apply readCounted_cons
      cases hmark : mark s with
      | true =>
          rw [List.countP_cons_of_pos hmark] at hcount
          rw [if_pos rfl, ← Nat.succ.inj hcount]
          exact hread
      | false =>
          rw [List.countP_cons_of_neg (by rw [hmark]; exact Bool.false_ne_true)] at hcount
          rw [if_neg Bool.false_ne_true, ← hcount]
          exact hread

end Counted

end Foundation
end Hbcur

/-!
# Texts written without separators

Decimal numbers, and texts which are cut in three at different places.
-/

namespace Hbcur
namespace Foundation

/-!
# Decimal numbers
-/

theorem natDecimal_injective {m n : Nat} (h : Nat.repr m = Nat.repr n) : m = n := by
  have hdigits : Nat.toDigits 10 m = Nat.toDigits 10 n := by
    rw [← Nat.toList_repr, ← Nat.toList_repr, h]
  rw [← Nat.ofDigitChars_ten_toDigits (n := m), hdigits, Nat.ofDigitChars_ten_toDigits]

theorem natDecimal_ne_minus (m : Nat) (t : String) : Nat.repr m ≠ "-" ++ t := by
  intro h
  have hmem : '-' ∈ Nat.toDigits 10 m := by
    rw [← Nat.toList_repr, h, String.toList_append]
    exact List.mem_append_left _ (List.mem_singleton_self _)
  have hdigit := Nat.isDigit_of_mem_toDigits (by decide) (by decide) hmem
  revert hdigit
  decide

/-- The digits tell the number, and a minus sign tells that it is below zero. -/
theorem toString_injective {a b : Int} (h : toString a = toString b) : a = b := by
  rw [Int.toString_eq_repr, Int.toString_eq_repr, Int.repr_eq_if, Int.repr_eq_if] at h
  by_cases ha : 0 ≤ a
  · by_cases hb : 0 ≤ b
    · rw [if_pos ha, if_pos hb] at h
      have habs := natDecimal_injective h
      omega
    · rw [if_pos ha, if_neg hb] at h
      exact absurd h (natDecimal_ne_minus _ _)
  · by_cases hb : 0 ≤ b
    · rw [if_neg ha, if_pos hb] at h
      exact absurd h.symm (natDecimal_ne_minus _ _)
    · rw [if_neg ha, if_neg hb] at h
      have htexts : (-a).toNat.repr = (-b).toNat.repr := by
        rw [← String.toList_inj, String.toList_append, String.toList_append] at h
        exact String.toList_inj.mp (List.append_cancel_left h)
      have habs := natDecimal_injective htexts
      omega

theorem natDecimal_ne_empty (m : Nat) : (Nat.repr m).toList ≠ [] := by
  rw [Nat.toList_repr]
  exact Nat.toDigits_ne_nil

def decimal (n : Int) : List Char := (toString n).toList

theorem decimal_inj {m n : Int} : decimal m = decimal n <-> m = n := by
  constructor
  · intro h
    exact toString_injective (String.toList_inj.mp h)
  · intro h
    rw [h]

theorem decimal_ne_nil (n : Int) : decimal n ≠ [] := by
  unfold decimal
  rw [Int.toString_eq_repr, Int.repr_eq_if]
  split
  · exact natDecimal_ne_empty _
  · rw [String.toList_append]
    exact List.append_ne_nil_of_right_ne_nil _ (natDecimal_ne_empty _)

/-!
# Two cuts of one text
-/

/-- A text in three parts. -/
structure Cut (letter : Type) where
  first : List letter
  middle : List letter
  last : List letter

namespace Cut

variable {letter : Type} {p q : Cut letter}

def joined (p : Cut letter) : List letter := p.first ++ p.middle ++ p.last

/-- The second cut is another one of the same letters, and its middle part does not set in
earlier. -/
inductive MovedOn : Cut letter -> Cut letter -> Prop where
  /-- Letters go from the middle to the first part, or from the last to the middle one. -/
  | overlapping (a x z y c : List letter) (h : x ++ y ≠ []) :
      MovedOn ⟨a, x ++ z, y ++ c⟩ ⟨a ++ x, z ++ y, c⟩
  /-- The middle part gives letters to both sides. -/
  | nested (a x z y c : List letter) (h : y ≠ []) :
      MovedOn ⟨a, x ++ z ++ y, c⟩ ⟨a ++ x, z, y ++ c⟩
  /-- All of the middle part goes to the first one, and the new middle part is from the last. -/
  | disjoint (a b x b' c : List letter) (h : b ≠ []) :
      MovedOn ⟨a, b, x ++ b' ++ c⟩ ⟨a ++ b ++ x, b', c⟩

theorem MovedOn.joined_eq (h : MovedOn p q) : p.joined = q.joined := by
  cases h with
  | overlapping a x z y c _ => simp only [joined, List.append_assoc]
  | nested a x z y c _ => simp only [joined, List.append_assoc]
  | disjoint a b x b' c _ => simp only [joined, List.append_assoc]

theorem MovedOn.ne (h : MovedOn p q) : p ≠ q := by
  intro heq
  cases h with
  | overlapping a x z y c hmoved =>
      injection heq with hfirst hmiddle hlast
      apply hmoved
      rw [List.self_eq_append_right.mp hfirst, List.append_left_eq_self.mp hlast]
      rfl
  | nested a x z y c hmoved =>
      injection heq with hfirst hmiddle hlast
      exact hmoved (List.self_eq_append_left.mp hlast)
  | disjoint a b x b' c hmoved =>
      injection heq with hfirst hmiddle hlast
      rw [List.append_assoc] at hfirst
      exact hmoved (List.append_eq_nil_iff.mp (List.self_eq_append_right.mp hfirst)).1

theorem movedOn_of_prefix {x : List letter} (hp : p.middle ≠ []) (hfirst : q.first = p.first ++ x)
    (hrest : p.middle ++ p.last = x ++ (q.middle ++ q.last)) : p = q ∨ MovedOn p q := by
  rcases p with ⟨a, b, c⟩
  rcases q with ⟨a', b', c'⟩
  change a' = a ++ x at hfirst
  change b ++ c = x ++ (b' ++ c') at hrest
  subst hfirst
  rcases List.append_eq_append_iff.mp hrest with ⟨y, hx, hc⟩ | ⟨z, hb, hinner⟩
  · -- the first part reaches to the end of the middle one or beyond
    right
    subst hx hc
    rw [← List.append_assoc, ← List.append_assoc]
    exact MovedOn.disjoint a b y b' c' hp
  · subst hb
    rcases List.append_eq_append_iff.mp hinner with ⟨y, hz, hc⟩ | ⟨y, hb, hc⟩
    · subst hz hc
      by_cases hnone : y = []
      · subst hnone
        by_cases hx : x = []
        · left
          subst hx
          simp only [List.append_nil, List.nil_append]
        · right
          have hmoved := MovedOn.overlapping a x b' [] c (by rw [List.append_nil]; exact hx)
          simp only [List.append_nil, List.nil_append] at hmoved ⊢
          exact hmoved
      · right
        rw [← List.append_assoc]
        exact MovedOn.nested a x b' y c hnone
    · subst hb hc
      by_cases hnone : x ++ y = []
      · left
        rcases List.append_eq_nil_iff.mp hnone with ⟨hx, hy⟩
        subst hx hy
        simp only [List.append_nil, List.nil_append]
      · right
        exact MovedOn.overlapping a x z y c' hnone

/-- Two cuts of one text are the same, or letters have moved from one to the other. -/
theorem joined_eq_iff (hp : p.middle ≠ []) (hq : q.middle ≠ []) :
    p.joined = q.joined <-> p = q ∨ MovedOn p q ∨ MovedOn q p := by
  constructor
  · intro h
    unfold joined at h
    rw [List.append_assoc, List.append_assoc] at h
    rcases List.append_eq_append_iff.mp h with ⟨x, hfirst, hrest⟩ | ⟨x, hfirst, hrest⟩
    · rcases movedOn_of_prefix hp hfirst hrest with heq | hmoved
      · exact Or.inl heq
      · exact Or.inr (Or.inl hmoved)
    · rcases movedOn_of_prefix hq hfirst hrest with heq | hmoved
      · exact Or.inl heq.symm
      · exact Or.inr (Or.inr hmoved)
  · intro h
    rcases h with heq | hmoved | hmoved
    · rw [heq]
    · exact hmoved.joined_eq
    · exact hmoved.joined_eq.symm

/-- Texts of the same widths are joined without loss. -/
theorem eq_of_joined_eq_of_length (h : p.joined = q.joined)
    (hfirst : p.first.length = q.first.length) (hlast : p.last.length = q.last.length) :
    p = q := by
  rcases p with ⟨a, b, c⟩
  rcases q with ⟨a', b', c'⟩
  unfold joined at h
  rcases List.append_inj' h hlast with ⟨hinit, hc⟩
  rcases List.append_inj hinit hfirst with ⟨ha, hb⟩
  change a = a' at ha
  change b = b' at hb
  change c = c' at hc
  rw [ha, hb, hc]

end Cut

end Foundation
end Hbcur
