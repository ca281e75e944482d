import Mathlib.Tactic
import Timetable.Text.Quoted

/-! # Reading quoted text

A notation is self-delimiting if what it writes can be told from whatever follows (`SelfDelimiting`).  One
that can be read back is (`SelfDelimiting.of_reads`); so is one that goes up to a mark which it does not hold
(`SelfDelimiting.closed`), and so is a text of which each character is written in such a way, up to a mark
that none of them begins with (`SelfDelimiting.enclosed`).  A character of a quoted text is read back by
`readQuotedChar?`; hence quoted texts are self-delimiting, whichever of the two marks encloses them
(`selfDelimiting_quoted`). -/

namespace Timetable.Text

variable {α : Type}

/-- What is written for a value, and the value, are known from any text that begins with it. -/
def SelfDelimiting (write : α → List Char) : Prop :=
  ∀ ⦃a b : α⦄ ⦃s t : List Char⦄, write a ++ s = write b ++ t → a = b ∧ s = t

namespace SelfDelimiting

theorem of_reads {write : α → List Char} (read? : List Char → Option (α × List Char))
    (h : ∀ a s, read? (write a ++ s) = some (a, s)) : SelfDelimiting write := by
  intro a b s t heq
  have hread : some (a, s) = some (b, t) := by rw [← h a s, heq, h b t]
  exact Prod.mk.inj (Option.some.inj hread)

theorem eq_nil_of_not_mem {close : Char} {u s t : List Char} (h : close :: s = u ++ t) (hu : close ∉ u) :
    u = [] := by
  cases u with
  | nil => rfl
  | cons d u =>
      obtain rfl : close = d := (List.cons.inj h).1
      exact absurd List.mem_cons_self hu

/-- Nothing that is written for a value may hold the closing mark. -/
theorem closed {write : α → List Char} {close : Char} (hinj : Function.Injective write)
    (hclose : ∀ a, close ∉ write a) : SelfDelimiting fun a => write a ++ [close] := by
  intro a b s t heq
  simp only [List.append_assoc, List.singleton_append] at heq
  have hwrite : write a = write b := by
    rcases List.append_eq_append_iff.mp heq with ⟨u, hb, hs⟩ | ⟨u, ha, ht⟩
    · have hu : close ∉ u := fun hmem => hclose b (hb ▸ List.mem_append_right _ hmem)
      rw [hb, eq_nil_of_not_mem hs hu, List.append_nil]
    · have hu : close ∉ u := fun hmem => hclose a (ha ▸ List.mem_append_right _ hmem)
      rw [ha, eq_nil_of_not_mem ht hu, List.append_nil]
  rw [hwrite] at heq
  exact ⟨hinj hwrite, (List.cons.inj (List.append_cancel_left heq)).2⟩

/-- Nothing that is written for a character may be taken for the closing mark. -/
theorem enclosed {write : Char → List Char} {close : Char} (hwrite : SelfDelimiting write)
    (hclose : ∀ c s t, write c ++ s ≠ close :: t) :
    SelfDelimiting fun text : List Char => text.flatMap write ++ [close] := by
  intro a b s t heq
  simp only [List.append_assoc, List.singleton_append] at heq
  induction a generalizing b with
  | nil =>
      cases b with
      | nil => exact ⟨rfl, (List.cons.inj heq).2⟩
      | cons d b =>
          rw [List.flatMap_cons, List.append_assoc] at heq
          exact absurd heq.symm (hclose d _ s)
  | cons c a ih =>
      cases b with
      | nil =>
          rw [List.flatMap_cons, List.append_assoc] at heq
          exact absurd heq (hclose c _ t)
      | cons d b =>
          rw [List.flatMap_cons, List.flatMap_cons, List.append_assoc, List.append_assoc] at heq
          obtain ⟨rfl, htail⟩ := hwrite heq
          obtain ⟨rfl, rfl⟩ := ih htail
          exact ⟨rfl, rfl⟩

/-- The same for what is written at the beginning of a string. -/
theorem ofList_append_inj {write : α → List Char} (hwrite : SelfDelimiting write) {a b : α} {s t : String}
    (heq : String.ofList (write a) ++ s = String.ofList (write b) ++ t) : a = b ∧ s = t := by
  have hlist := congrArg String.toList heq
  rw [String.toList_append, String.toList_append, String.toList_ofList, String.toList_ofList] at hlist
  exact (hwrite hlist).imp_right String.toList_inj.mp

end SelfDelimiting

/-! ### Hexadecimal digits -/

/-- The value of a hexadecimal digit, its letter in lower case. -/
def hexValue (c : Char) : Nat := if c.isDigit then c.toNat - 48 else c.toNat - 87

/-- The number that hexadecimal digits write, the highest place first. -/
def readHex (digits : List Char) : Nat := digits.foldl (fun n c => 16 * n + hexValue c) 0

theorem hexValue_digitChar : ∀ d < 16, hexValue (Nat.digitChar d) = d := by decide

@[simp] theorem length_hexPadded (width n : Nat) : (hexPadded width n).length = width := by
  induction width generalizing n with
  | zero => rfl
  | succ width ih => rw [hexPadded, List.length_append, ih, List.length_singleton]

theorem readHex_append (digits : List Char) (c : Char) :
    readHex (digits ++ [c]) = 16 * readHex digits + hexValue c := by
  rw [readHex, List.foldl_append]
  rfl

theorem readHex_hexPadded {width n : Nat} (h : n < 16 ^ width) : readHex (hexPadded width n) = n := by
  induction width generalizing n with
  | zero =>
      obtain rfl : n = 0 := by simpa using h
      rfl
  | succ width ih =>
      have hdiv : n / 16 < 16 ^ width := by
        rw [Nat.pow_succ] at h
        exact Nat.div_lt_of_lt_mul (by omega)
      rw [hexPadded, readHex_append, ih hdiv, hexValue_digitChar _ (Nat.mod_lt n (by decide))]
      exact Nat.div_add_mod n 16

theorem toNat_lt_sixteen_pow (c : Char) : c.toNat < 16 ^ 8 := by
  have hvalid : c.toNat < 0xd800 ∨ 0xdfff < c.toNat ∧ c.toNat < 0x110000 := c.valid
  omega

/-! ### Characters between marks -/

/-- How many hexadecimal digits a letter behind a backslash announces, if any. -/
def hexWidth? : Char → Option Nat
  | 'x' => some 2
  | 'u' => some 4
  | 'U' => some 8
  | _ => none

/-- The character that another one behind a backslash stands for. -/
def unescaped : Char → Char
  | 't' => '\t'
  | 'n' => '\n'
  | 'r' => '\r'
  | c => c

/-- The first character of a text that is written as between two marks, and what follows it. -/
def readQuotedChar? : List Char → Option (Char × List Char)
  | '\\' :: c :: text =>
    match hexWidth? c with
    | some width => some (Char.ofNat (readHex (text.take width)), text.drop width)
    | none => some (unescaped c, text)
  | c :: text => some (c, text)
  | [] => none

variable {mark c : Char}

theorem readQuotedChar?_escape (hc : hexWidth? c = none) (text : List Char) :
    readQuotedChar? ('\\' :: c :: text) = some (unescaped c, text) := by
  simp only [readQuotedChar?, hc]

theorem readQuotedChar?_self (hc : c ≠ '\\') (text : List Char) :
    readQuotedChar? (c :: text) = some (c, text) := by
  unfold readQuotedChar?
  split
  · rename_i heq
    exact absurd (List.cons.inj heq).1 hc
  · rename_i heq
    obtain ⟨rfl, rfl⟩ := List.cons.inj heq
    rfl
  · contradiction

theorem readQuotedChar?_hexPadded {letter : Char} {width : Nat} (hwidth : hexWidth? letter = some width)
    (hc : c.toNat < 16 ^ width) (text : List Char) :
    readQuotedChar? ('\\' :: letter :: hexPadded width c.toNat ++ text) = some (c, text) := by
  have htake : (hexPadded width c.toNat ++ text).take width = hexPadded width c.toNat :=
    List.take_left' (length_hexPadded width c.toNat)
  have hdrop : (hexPadded width c.toNat ++ text).drop width = text :=
    List.drop_left' (length_hexPadded width c.toNat)
  simp only [List.cons_append, readQuotedChar?, hwidth, htake, hdrop, readHex_hexPadded hc,
    Char.ofNat_toNat]

theorem quoteMark_cases (text : List Char) : quoteMark text = '\'' ∨ quoteMark text = '"' := by
  unfold quoteMark
  split
  · exact .inr rfl
  · exact .inl rfl

/-- Each character is read back from its written form, whatever follows. -/
theorem readQuotedChar?_quotedChar (hmark : mark = '\'' ∨ mark = '"') (c : Char) (text : List Char) :
    readQuotedChar? (quotedChar mark c ++ text) = some (c, text) := by
  unfold quotedChar
  split_ifs with hescape htab hnewline hreturn hprintable htwo hfour
  · -- Neither a mark nor a backslash announces digits or stands for another character.
    have hself : hexWidth? c = none ∧ unescaped c = c := by
      rcases hescape with rfl | rfl
      · rcases hmark with rfl | rfl <;> decide
      · decide
    rw [List.cons_append, List.singleton_append, readQuotedChar?_escape hself.1, hself.2]
  · exact htab ▸ rfl
  · exact hnewline ▸ rfl
  · exact hreturn ▸ rfl
  · exact readQuotedChar?_self (fun heq => hescape (.inr heq)) text
  · exact readQuotedChar?_hexPadded rfl htwo text
  · exact readQuotedChar?_hexPadded rfl hfour text
  · exact readQuotedChar?_hexPadded rfl (toNat_lt_sixteen_pow c) text

theorem exists_quotedChar_eq_cons (mark c : Char) :
    ∃ d w, quotedChar mark c = d :: w ∧ (d = '\\' ∨ d = c ∧ c ≠ mark) := by
  unfold quotedChar
  split_ifs with hescape
  -- Only a printable character is written as it is.
  on_goal 5 => exact ⟨c, [], rfl, .inr ⟨rfl, fun heq => hescape (.inl heq)⟩⟩
  all_goals exact ⟨'\\', _, rfl, .inl rfl⟩

/-- No written form begins with the mark. -/
theorem quotedChar_append_ne (hmark : mark = '\'' ∨ mark = '"') (c : Char) (s t : List Char) :
    quotedChar mark c ++ s ≠ mark :: t := by
  obtain ⟨d, w, hw, hd⟩ := exists_quotedChar_eq_cons mark c
  rw [hw]
  intro heq
  obtain rfl : d = mark := (List.cons.inj heq).1
  rcases hd with rfl | ⟨rfl, hne⟩
  · revert hmark
    decide
  · exact hne rfl

/-- The text is known from its quoted form, and so is what follows. -/
theorem selfDelimiting_quoted : SelfDelimiting quoted := by
  intro a b s t heq
  unfold quoted at heq
  obtain ⟨hmarks, htails⟩ := List.cons.inj heq
  rw [hmarks] at htails
  have hmark := quoteMark_cases b
  have hchars : SelfDelimiting (quotedChar (quoteMark b)) :=
    .of_reads readQuotedChar? (readQuotedChar?_quotedChar hmark)
  exact hchars.enclosed (quotedChar_append_ne hmark) htails

end Timetable.Text
