import LoxTree.Json.Read
import LoxTree.Json.Write
import LoxTree.Proofs.Encoding.Trees
import LoxTree.Proofs.Number.Texts

/-!
# JSON comes back from its text

`Denoted n v` says that JSON can hold the data `v` as it is, within `n` levels of nesting: no number
that is not finite, no integer with more digits than a reader takes, no name twice in a record.
Written with any indentation at any depth, such data is read back from its text, whatever follows
(`Denoted.reads`), and a whole text denotes it (`Denoted.read_writeIndented`). The parts are strings
(`readString_flatMap`), numbers and integers (`reads_number`, `reads_integer`), and the blocks that
hold the items of a list and the entries of a record (`reads_list`, `reads_record`).
-/

namespace LoxTree.Json

open Number

/-! ### Strings -/

theorem hexNumber?_hexDigits : ∀ n < 32, hexNumber? (Text.hexDigits 4 n) = some n := by
  decide

/-- What a character becomes when its escape is read. -/
def unitOf (c : Char) : Char ⊕ Nat :=
  if c.toNat < 0x20 ∧ c ∉ ['\n', '\r', '\t', Char.ofNat 0x0C, Char.ofNat 0x08] then .inr c.toNat
  else .inl c

theorem readUnits_simpleEscape {e c : Char} (h : simpleEscape? e = some c) (hu : e ≠ 'u')
    (rest : List Char) :
    readUnits ('\\' :: e :: rest) =
      (readUnits rest).map fun (units, after) => (.inl c :: units, after) := by
  rw [readUnits.eq_4]
  · rw [h]
    cases readUnits rest <;> rfl
  · rintro a b c d rest' rfl
    exact absurd rfl hu

theorem readUnits_escapedChar (c : Char) (rest : List Char) :
    readUnits (escapedChar c ++ rest) =
      (readUnits rest).map fun (units, after) => (unitOf c :: units, after) := by
  unfold escapedChar
  split_ifs with h₁ h₂ h₃ h₄ h₅ h₆ h₇ h₈
  -- the characters with an escape of their own
  iterate 7
    · subst c
      exact readUnits_simpleEscape rfl (by decide) rest
  · have hunit : unitOf c = .inr c.toNat := if_pos ⟨h₈, by simp [h₃, h₄, h₅, h₆, h₇]⟩
    have hhex := hexNumber?_hexDigits c.toNat h₈
    show readUnits ('\\' :: 'u' :: _ :: _ :: _ :: _ :: rest) = _
    rw [readUnits.eq_3, hunit]
    change hexNumber? [_, _, _, _] = _ at hhex
    rw [hhex]
    cases readUnits rest <;> rfl
  · have hunit : unitOf c = .inl c := if_neg fun h => h₈ h.1
    rw [List.singleton_append, readUnits.eq_5 c rest h₁ (fun _ _ _ _ _ h => absurd h h₂)
      fun _ _ h => absurd h h₂, if_neg (by simp [h₂, h₈]), hunit]
    cases readUnits rest <;> rfl

theorem readUnits_flatMap (cs rest : List Char) :
    readUnits (cs.flatMap escapedChar ++ '"' :: rest) = .ok (cs.map unitOf, rest) := by
  induction cs with
  | nil => rfl
  | cons c cs ih =>
    rw [List.flatMap_cons, List.append_assoc, readUnits_escapedChar, ih]
    rfl

theorem joinUnits_unitOf (c : Char) (units : List (Char ⊕ Nat)) :
    joinUnits (unitOf c :: units) = c :: joinUnits units := by
  unfold unitOf
  split
  next h =>
    have hleading : isLeadingHalf c.toNat = false := by
      unfold isLeadingHalf
      simp only [Bool.and_eq_false_iff, decide_eq_false_iff_not]
      omega
    have htrailing : isTrailingHalf c.toNat = false := by
      unfold isTrailingHalf
      simp only [Bool.and_eq_false_iff, decide_eq_false_iff_not]
      omega
    -- no half of a pair, whatever follows
    match units with
    | [] => simp [joinUnits, hleading, htrailing]
    | .inl d :: rest => simp [joinUnits, hleading, htrailing]
    | .inr m :: rest => simp [joinUnits.eq_4, hleading, htrailing]
  next => rw [joinUnits]

theorem joinUnits_map (cs : List Char) : joinUnits (cs.map unitOf) = cs := by
  induction cs with
  | nil => rw [List.map_nil, joinUnits]
  | cons c cs ih => rw [List.map_cons, joinUnits_unitOf, ih]

/-- A string comes back from its text. -/
theorem readString_flatMap (s : String) (rest : List Char) :
    readString (s.toList.flatMap escapedChar ++ '"' :: rest) = .ok (s, rest) := by
  unfold readString
  rw [readUnits_flatMap]
  show Except.ok (String.ofList (joinUnits (s.toList.map unitOf)), rest) = _
  rw [joinUnits_map, String.ofList_toList]

/-! ### Numbers -/

/-- A number does not go on into what follows it. -/
def Ends (rest : List Char) : Prop :=
  ∀ c ∈ rest.head?, isDigit c = false ∧ c ≠ '.' ∧ c ≠ 'e' ∧ c ≠ 'E'

theorem splitWhole?_append {whole after : List Char} (hne : whole ≠ [])
    (hdigits : ∀ c ∈ whole, isDigit c = true)
    (hleading : whole = ['0'] ∨ ∀ c ∈ whole.head?, c ≠ '0')
    (hafter : ∀ c ∈ after.head?, isDigit c = false) :
    splitWhole? (whole ++ after) = some (whole, after) := by
  rcases hleading with rfl | hleading
  · rfl
  · obtain ⟨c, rest, rfl⟩ := List.exists_cons_of_ne_nil hne
    have hc : isDigit c = true := hdigits c List.mem_cons_self
    have hrest : ∀ d ∈ rest, isDigit d = true := fun d hd => hdigits d (List.mem_cons_of_mem c hd)
    rw [List.cons_append, splitWhole?.eq_2 c (rest ++ after) (hleading c rfl), if_pos hc,
      takeWhile_append_of_stop hrest hafter, dropWhile_append_of_stop hrest hafter]

theorem stop_powerText_append (w : Written) {rest : List Char} (hrest : Ends rest) :
    ∀ c ∈ (w.powerText ++ rest).head?, isDigit c = false ∧ c ≠ '.' := by
  intro c hc
  rcases w.powerText_cases with hempty | ⟨digits, hmark⟩
  · rw [hempty] at hc
    exact ⟨(hrest c hc).1, (hrest c hc).2.1⟩
  · rw [hmark] at hc
    cases hc
    decide

theorem stop_fractionText_append (w : Written) {rest : List Char} (hrest : Ends rest) :
    ∀ c ∈ (w.fractionText ++ (w.powerText ++ rest)).head?, isDigit c = false := by
  unfold Written.fractionText
  split
  · exact fun c hc => (stop_powerText_append w hrest c hc).1
  · rintro c ⟨⟩
    decide

section

variable {w : Written} (hw : w.Proper)

include hw

theorem splitFraction_append {after : List Char}
    (hafter : ∀ c ∈ after.head?, isDigit c = false ∧ c ≠ '.') :
    splitFraction (w.fractionText ++ after) = (w.fractionText, after) := by
  unfold Written.fractionText
  cases hpart : w.part with
  | nil =>
    rw [if_pos rfl, List.nil_append]
    match after with
    | [] => rfl
    | c :: after =>
      refine splitFraction.eq_2 _ ?_
      rintro d rest heq
      exact absurd (List.cons.inj heq).1 (hafter c rfl).2
  | cons d part =>
    have hdigits := hw.part
    rw [hpart] at hdigits
    have hd : isDigit d = true := hdigits d List.mem_cons_self
    have hrest : ∀ c ∈ part, isDigit c = true := fun c hc => hdigits c (List.mem_cons_of_mem d hc)
    have hstop : ∀ c ∈ after.head?, isDigit c = false := fun c hc => (hafter c hc).1
    rw [if_neg (by simp), List.cons_append, List.cons_append, splitFraction, if_pos hd,
      takeWhile_append_of_stop hrest hstop, dropWhile_append_of_stop hrest hstop]

theorem splitPower_append {rest : List Char} (hrest : Ends rest) :
    splitPower (w.powerText ++ rest) = (w.powerText, rest) := by
  unfold Written.powerText
  cases hpower : w.power with
  | none =>
    match rest with
    | [] => rfl
    | c :: rest =>
      obtain ⟨-, -, he, hE⟩ := hrest c rfl
      unfold splitPower
      simp [he, hE]
  | some p =>
    obtain ⟨negative, digits⟩ := p
    have hne : digits ≠ [] := hw.power_ne (negative, digits) hpower
    have hdigits : ∀ c ∈ digits, isDigit c = true := hw.power (negative, digits) hpower
    have hstop : ∀ c ∈ rest.head?, isDigit c = false := fun c hc => (hrest c hc).1
    have hsign : splitPowerSign ((if negative then '-' else '+') :: (digits ++ rest)) =
        ([if negative then '-' else '+'], digits ++ rest) := by
      cases negative <;> rfl
    unfold splitPower
    simp [hsign, takeWhile_append_of_stop hdigits hstop, dropWhile_append_of_stop hdigits hstop,
      hne]

theorem head_text_append (rest : List Char) :
    ∃ c cs, w.text ++ rest = c :: cs ∧ isDigit c = true := by
  obtain ⟨c, digits, hwhole⟩ := List.exists_cons_of_ne_nil hw.whole_ne
  refine ⟨c, digits ++ (w.fractionText ++ w.powerText) ++ rest, ?_, hw.whole c (by simp [hwhole])⟩
  rw [Written.text, hwhole]
  simp

theorem splitWhole?_text (hleading : w.whole = ['0'] ∨ ∀ c ∈ w.whole.head?, c ≠ '0')
    {rest : List Char} (hrest : Ends rest) :
    splitWhole? (w.text ++ rest) = some (w.whole, w.fractionText ++ (w.powerText ++ rest)) := by
  rw [Written.text, List.append_assoc, List.append_assoc]
  exact splitWhole?_append hw.whole_ne hw.whole hleading (stop_fractionText_append w hrest)

/-- A numeral with a point or a power of ten is read as a number. -/
theorem readNumber_number (hleading : w.whole = ['0'] ∨ ∀ c ∈ w.whole.head?, c ≠ '0')
    (hmarked : (w.fractionText.isEmpty && w.powerText.isEmpty) = false) (negative : Bool)
    {rest : List Char} (hrest : Ends rest) :
    readNumber ((if negative then ['-'] else []) ++ (w.text ++ rest)) =
      .ok (.number (ofMagnitude negative w.decimal.round), rest) := by
  have hwhole := splitWhole?_text hw hleading hrest
  have hfraction := splitFraction_append hw (stop_powerText_append w hrest)
  have hpower := splitPower_append hw hrest
  have hread := hw.readNumeral?_text negative
  have hparts : w.whole ++ w.fractionText ++ w.powerText = w.text := List.append_assoc _ _ _
  obtain ⟨c, cs, htext, hc⟩ := head_text_append hw rest
  have hminus : c ≠ '-' := holds_of_isDigit (fun d => d ≠ '-') (by decide) hc
  unfold readNumber
  cases negative with
  | true =>
    rw [if_pos rfl, List.singleton_append] at hread ⊢
    simp only [hwhole, hfraction, hpower, hmarked, Bool.false_eq_true, if_false, List.cons_append,
      List.nil_append, hparts, hread]
    rfl
  | false =>
    rw [if_neg (by decide), List.nil_append] at hread ⊢
    rw [htext] at hwhole ⊢
    simp [hwhole, hfraction, hpower, hminus, hmarked, hparts, hread]
    rfl

/-- A numeral that is nothing but digits is read as an integer. -/
theorem readNumber_integer (hleading : w.whole = ['0'] ∨ ∀ c ∈ w.whole.head?, c ≠ '0')
    (hplain : (w.fractionText.isEmpty && w.powerText.isEmpty) = true)
    (hlength : w.whole.length ≤ maxIntegerDigits) (negative : Bool) {rest : List Char}
    (hrest : Ends rest) :
    readNumber ((if negative then ['-'] else []) ++ (w.text ++ rest)) =
      .ok (.integer (if negative then -(ofDigits w.whole : Int) else ofDigits w.whole), rest) := by
  have hwhole := splitWhole?_text hw hleading hrest
  have hfraction := splitFraction_append hw (stop_powerText_append w hrest)
  have hpower := splitPower_append hw hrest
  have hshort : ¬ maxIntegerDigits < w.whole.length := by omega
  obtain ⟨c, cs, htext, hc⟩ := head_text_append hw rest
  have hminus : c ≠ '-' := holds_of_isDigit (fun d => d ≠ '-') (by decide) hc
  unfold readNumber
  cases negative with
  | true =>
    rw [if_pos rfl, List.singleton_append]
    simp only [hwhole, hfraction, hpower, hplain, if_true, hshort, if_false]
    rfl
  | false =>
    rw [if_neg (by decide), List.nil_append, htext]
    rw [htext] at hwhole
    simp [hwhole, hfraction, hpower, hminus, hplain, hshort]
    rfl

end

/-! ### Words, strings and numbers as values -/

/-- A reader reads a text as data, whatever follows that a number does not go on into. -/
def Reads (item : Reader Value) (text : String) (v : Value) : Prop :=
  ∀ rest, Ends rest → item (text.toList ++ rest) = .ok (v, rest)

theorem readWord?_of_isDigit {c : Char} (h : isDigit c = true) (cs : List Char) :
    readWord? (c :: cs) = none ∧ readWord? ('-' :: c :: cs) = none := by
  have hfirst := holds_of_isDigit (fun d => d ∉ ['n', 't', 'f', 'N', 'I', '-']) (by decide) h
  simp only [List.mem_cons, List.not_mem_nil, or_false, not_or] at hfirst
  obtain ⟨hn, ht, hf, hN, hI, hminus⟩ := hfirst
  constructor
  · simp [readWord?, words, Ne.symm hn, Ne.symm ht, Ne.symm hf, Ne.symm hN,
      Ne.symm hI, Ne.symm hminus]
  · simp [readWord?, words, Ne.symm hI]

/-- A text that starts like a number is read as one. -/
theorem readValue_of_isDigit {c : Char} (h : isDigit c = true) (cs : List Char) (negative : Bool)
    (room : Nat) :
    readValue (room + 1) ((if negative then ['-'] else []) ++ c :: cs) =
      readNumber ((if negative then ['-'] else []) ++ c :: cs) := by
  have hfirst := holds_of_isDigit (fun d => d ∉ ['"', '[', '\x7b']) (by decide) h
  simp only [List.mem_cons, List.not_mem_nil, or_false, not_or] at hfirst
  obtain ⟨hquote, hbracket, hbrace⟩ := hfirst
  obtain ⟨hword, hword'⟩ := readWord?_of_isDigit h cs
  cases negative with
  | true =>
    rw [if_pos rfl, List.singleton_append, readValue]
    · rw [hword']
    all_goals simp
  | false =>
    rw [if_neg (by decide), List.nil_append, readValue]
    · rw [hword]
    · simpa using hquote
    · simpa using hbracket
    · simpa using hbrace

theorem reads_string (s : String) (room : Nat) :
    Reads (readValue (room + 1)) (writeString s) (.string s) := by
  intro rest _
  have htext : (writeString s).toList ++ rest =
      '"' :: (s.toList.flatMap escapedChar ++ '"' :: rest) := by
    simp [writeString]
  rw [htext, readValue, readString_flatMap]
  rfl

theorem reads_boolean (b : Bool) (room : Nat) :
    Reads (readValue (room + 1)) (if b then "true" else "false") (.boolean b) := by
  intro rest _
  cases b <;> rfl

theorem reads_absent (room : Nat) : Reads (readValue (room + 1)) "null" .absent :=
  fun _ _ => rfl

theorem isEmpty_eq_false_of_marked {w : Written} (h : w.part ≠ [] ∨ w.power ≠ none) :
    (w.fractionText.isEmpty && w.powerText.isEmpty) = false := by
  unfold Written.fractionText Written.powerText
  rcases h with hpart | hpower
  · rw [if_neg hpart]
    rfl
  · obtain ⟨p, hp⟩ := Option.ne_none_iff_exists'.1 hpower
    rw [hp, Bool.and_eq_false_iff]
    exact .inr rfl

theorem toList_wholeMark :
    numberLayout.wholeMark.toList = if 1 = 0 then [] else '.' :: List.replicate 1 '0' := by
  decide

/-- A number comes back from its text. -/
theorem reads_number {x : Float} (hx : magnitude x < infinityBits) (room : Nat) :
    Reads (readValue (room + 1)) (numberLayout.write x) (.number x) := by
  intro rest hrest
  obtain ⟨w, hw, hwrite, hround, hleading, hmarked⟩ :=
    numberLayout.exists_written toList_wholeMark rfl hx
  have hmarked := isEmpty_eq_false_of_marked (hmarked (by decide))
  obtain ⟨c, cs, htext, hc⟩ := head_text_append hw rest
  have hread := readNumber_number hw hleading hmarked (isNegative x) hrest
  rw [hwrite, String.toList_ofList, List.append_assoc]
  rw [htext] at hread ⊢
  rw [readValue_of_isDigit hc, hread, hround, ofMagnitude_magnitude]

theorem toList_toString_int (n : Int) :
    (toString n).toList = (if decide (n < 0) then ['-'] else []) ++ Nat.toDigits 10 n.natAbs := by
  cases n with
  | ofNat m =>
    show m.repr.toList = _
    simp
  | negSucc m =>
    show ("-" ++ (m + 1).repr).toList = _
    simp [Int.negSucc_lt_zero]

/-- An integer that is not too long comes back from its text. -/
theorem reads_integer {n : Int} (hn : (Nat.toDigits 10 n.natAbs).length ≤ maxIntegerDigits)
    (room : Nat) : Reads (readValue (room + 1)) (toString n) (.integer n) := by
  intro rest hrest
  let w : Written := ⟨Nat.toDigits 10 n.natAbs, [], none⟩
  have hw : w.Proper :=
    ⟨Nat.toDigits_ne_nil, fun _ => isDigit_of_mem_toDigits, nofun, nofun, nofun⟩
  have htext : w.text = Nat.toDigits 10 n.natAbs := List.append_nil _
  have hleading : w.whole = ['0'] ∨ ∀ c ∈ w.whole.head?, c ≠ '0' := by
    by_cases hzero : n.natAbs = 0
    · left
      show Nat.toDigits 10 n.natAbs = ['0']
      rw [hzero]
      rfl
    · exact .inr (head_toDigits hzero)
  have hread := readNumber_integer hw hleading rfl hn (decide (n < 0)) hrest
  have hvalue : (if decide (n < 0) then -(ofDigits w.whole : Int) else ofDigits w.whole) = n := by
    show (if decide (n < 0) then -(ofDigits (Nat.toDigits 10 n.natAbs) : Int)
      else ofDigits (Nat.toDigits 10 n.natAbs)) = n
    rw [ofDigits_toDigits]
    split_ifs with hneg
    · have hneg : n < 0 := by simpa using hneg
      omega
    · have hneg : ¬ n < 0 := by simpa using hneg
      omega
  obtain ⟨c, cs, hcs, hc⟩ := head_text_append hw rest
  rw [toList_toString_int, List.append_assoc, ← htext]
  rw [hcs] at hread ⊢
  rw [readValue_of_isDigit hc, hread, hvalue]

/-! ### Lists and records -/

theorem skipSpace_append {spaces : List Char} (h : ∀ c ∈ spaces, isSpace c = true)
    (rest : List Char) : skipSpace (spaces ++ rest) = skipSpace rest :=
  List.dropWhile_append_of_pos h

theorem skipSpace_cons {c : Char} (h : isSpace c = false) (rest : List Char) :
    skipSpace (c :: rest) = c :: rest :=
  List.dropWhile_cons_of_neg (by simp [h])

/-- A text starts with a character that is no space and closes no list or record. -/
def Starts (cs : List Char) : Prop :=
  ∃ c rest, cs = c :: rest ∧ c ∉ [' ', '\t', '\n', '\r', ']', '}']

namespace Starts

theorem append {cs : List Char} (h : Starts cs) (rest : List Char) : Starts (cs ++ rest) := by
  obtain ⟨c, after, rfl, hc⟩ := h
  exact ⟨c, after ++ rest, rfl, hc⟩

theorem skipSpace {cs : List Char} (h : Starts cs) : skipSpace cs = cs := by
  obtain ⟨c, after, rfl, hc⟩ := h
  simp only [List.mem_cons, List.not_mem_nil, or_false, not_or] at hc
  exact skipSpace_cons (by simp [isSpace, hc]) after

theorem intercalate {text : String} (h : Starts text.toList) (sep : String)
    (texts : List String) : Starts (sep.intercalate (text :: texts)).toList := by
  cases texts with
  | nil => rwa [String.intercalate_singleton]
  | cons next texts =>
    rw [String.intercalate_cons_cons, String.toList_append, String.toList_append,
      List.append_assoc]
    exact h.append _

/-- There are no more texts than characters in them. -/
theorem length_le_intercalate {texts : List String} (h : ∀ text ∈ texts, Starts text.toList)
    (sep : String) : texts.length ≤ (sep.intercalate texts).toList.length := by
  induction texts with
  | nil => exact Nat.zero_le _
  | cons text texts ih =>
    have ih := ih fun t ht => h t (List.mem_cons_of_mem text ht)
    obtain ⟨c, rest, heq, -⟩ := h text List.mem_cons_self
    cases texts with
    | nil =>
      rw [String.intercalate_singleton, heq]
      simp
    | cons next texts =>
      rw [String.intercalate_cons_cons, String.toList_append, String.toList_append, heq]
      simp only [List.length_append, List.length_cons] at ih ⊢
      omega

end Starts

theorem starts_of_readValue {room : Nat} {cs : List Char} {r : Value × List Char}
    (h : readValue room cs = .ok r) : Starts cs := by
  cases room with
  | zero => cases h
  | succ room =>
    cases cs with
    | nil => cases h
    | cons c rest =>
      refine ⟨c, rest, rfl, fun hc => ?_⟩
      simp only [List.mem_cons, List.not_mem_nil, or_false] at hc
      rcases hc with rfl | rfl | rfl | rfl | rfl | rfl <;> cases h

theorem Reads.starts {room : Nat} {text : String} {v : Value}
    (h : Reads (readValue room) text v) : Starts text.toList := by
  have hread := h [] nofun
  rw [List.append_nil] at hread
  exact starts_of_readValue hread

theorem ends_cons {c : Char} (h : c ∈ [' ', '\t', '\n', '\r', ',', ']', '}'])
    (rest : List Char) : Ends (c :: rest) := by
  rintro d ⟨⟩
  exact holds_of_mem (fun d => isDigit d = false ∧ d ≠ '.' ∧ d ≠ 'e' ∧ d ≠ 'E') (by decide) h

theorem ends_append {spaces : List Char} (h : ∀ c ∈ spaces, isSpace c = true) {rest : List Char}
    (hrest : Ends rest) : Ends (spaces ++ rest) := by
  cases spaces with
  | nil => exact hrest
  | cons c spaces =>
    refine ends_cons ?_ (spaces ++ rest)
    have hc := h c List.mem_cons_self
    simp only [isSpace, Bool.or_eq_true, decide_eq_true_eq] at hc
    simp only [List.mem_cons]
    tauto

theorem putFirst_of_notMem {name : String} {v : Value} {entries : List (String × Value)}
    (h : name ∉ entries.map Prod.fst) : putFirst name v entries = (name, v) :: entries := by
  have hnone : entries.lookup name = none := by
    rw [List.lookup_eq_none_iff]
    intro entry hentry
    rw [bne_iff_ne, ne_comm]
    rintro rfl
    exact h (List.mem_map_of_mem hentry)
  rw [putFirst, hnone]

theorem toList_intercalate_cons_cons {sep : String} {gap : List Char}
    (hsep : sep.toList = ',' :: gap) (text next : String) (texts : List String)
    (rest : List Char) :
    (sep.intercalate (text :: next :: texts)).toList ++ rest =
      text.toList ++ ',' :: (gap ++ ((sep.intercalate (next :: texts)).toList ++ rest)) := by
  rw [String.intercalate_cons_cons]
  simp [hsep]

/-- A bounded reader reads texts with commas between them up to a closing character, if the bound
is their number at least. -/
def ReadsUpTo {α : Type} (inside : Nat → Reader α) (close : Char) (texts : List String) (a : α) :
    Prop :=
  ∀ (sep : String) (gap space rest : List Char) (bound : Nat), sep.toList = ',' :: gap →
    (∀ c ∈ gap, isSpace c = true) → (∀ c ∈ space, isSpace c = true) → texts.length ≤ bound →
      inside bound ((sep.intercalate texts).toList ++ (space ++ close :: rest)) = .ok (a, rest)

theorem readsUpTo_items {room : Nat} {write : Value → String} {items : List Value}
    (h : ∀ v ∈ items, Reads (readValue room) (write v) v) (hne : items ≠ []) :
    ReadsUpTo (readItems (readValue room)) ']' (items.map write) items := by
  intro sep gap space rest bound hsep hgap hspace hbound
  induction items generalizing bound with
  | nil => exact absurd rfl hne
  | cons v items ih =>
    obtain ⟨bound, rfl⟩ : ∃ b, bound = b + 1 := ⟨bound - 1, by simp at hbound; omega⟩
    have hread := h v List.mem_cons_self
    -- the last item stands before the bracket, any other before a comma
    cases items with
    | nil =>
      have hends : Ends (space ++ ']' :: rest) := ends_append hspace (ends_cons (by decide) rest)
      rw [List.map_singleton, String.intercalate_singleton, readItems, hread _ hends]
      simp only [bind, Except.bind, skipSpace_append hspace,
        skipSpace_cons (show isSpace ']' = false by decide)]
      rfl
    | cons next items =>
      have hitems := fun w hw => h w (List.mem_cons_of_mem v hw)
      have hlater := ih hitems (by simp) bound (by simpa using hbound)
      have hstarts := ((hitems next List.mem_cons_self).starts.intercalate sep
        (items.map write)).append (space ++ ']' :: rest)
      rw [List.map_cons] at hlater
      rw [List.map_cons, List.map_cons, toList_intercalate_cons_cons hsep, readItems,
        hread _ (ends_cons (by decide) _)]
      simp only [bind, Except.bind, skipSpace_cons (show isSpace ',' = false by decide),
        skipSpace_append hgap, hstarts.skipSpace, hlater]
      rfl

/-- The text of an entry: its name, and the text of its value. -/
def entryText (write : Value → String) (entry : String × Value) : String :=
  writeString entry.1 ++ ": " ++ write entry.2

theorem entryText_append (write : Value → String) (entry : String × Value) (rest : List Char) :
    (entryText write entry).toList ++ rest = '"' :: (entry.1.toList.flatMap escapedChar ++
      '"' :: ':' :: ' ' :: ((write entry.2).toList ++ rest)) := by
  simp [entryText, writeString]

theorem starts_entryText (write : Value → String) (entry : String × Value) :
    Starts (entryText write entry).toList := by
  rw [← List.append_nil (entryText write entry).toList, entryText_append]
  exact ⟨_, _, rfl, by decide⟩

theorem readsUpTo_entries {room : Nat} {write : Value → String}
    {entries : List (String × Value)}
    (h : ∀ entry ∈ entries, Reads (readValue room) (write entry.2) entry.2) (hne : entries ≠ [])
    (hnodup : (entries.map Prod.fst).Nodup) :
    ReadsUpTo (readEntries (readValue room)) '}' (entries.map (entryText write)) entries := by
  intro sep gap space rest bound hsep hgap hspace hbound
  induction entries generalizing bound with
  | nil => exact absurd rfl hne
  | cons entry entries ih =>
    obtain ⟨bound, rfl⟩ : ∃ b, bound = b + 1 := ⟨bound - 1, by simp at hbound; omega⟩
    obtain ⟨name, v⟩ := entry
    have hread : Reads (readValue room) (write v) v := h (name, v) List.mem_cons_self
    have hblank : ∀ after, skipSpace (' ' :: ((write v).toList ++ after)) =
        (write v).toList ++ after := by
      intro after
      rw [← List.singleton_append, skipSpace_append (List.forall_mem_singleton.2 rfl),
        (hread.starts.append _).skipSpace]
    cases entries with
    | nil =>
      have hends : Ends (space ++ '}' :: rest) := ends_append hspace (ends_cons (by decide) rest)
      rw [List.map_singleton, String.intercalate_singleton, entryText_append, readEntries]
      simp only [bind, Except.bind, readString_flatMap, skipSpace_append hspace, hblank,
        skipSpace_cons (show isSpace ':' = false by decide), hread _ hends,
        skipSpace_cons (show isSpace '}' = false by decide)]
      rfl
    | cons next entries =>
      have hnames := List.nodup_cons.1 hnodup
      have hlater := ih (fun w hw => h w (List.mem_cons_of_mem _ hw)) (by simp) hnames.2 bound
        (by simpa using hbound)
      have hstarts := ((starts_entryText write next).intercalate sep
        (entries.map (entryText write))).append (space ++ '}' :: rest)
      rw [List.map_cons] at hlater
      rw [List.map_cons, List.map_cons, toList_intercalate_cons_cons hsep, entryText_append,
        readEntries]
      simp only [bind, Except.bind, readString_flatMap, skipSpace_append hgap, hlater, hblank,
        skipSpace_cons (show isSpace ':' = false by decide),
        hread _ (ends_cons (show ',' ∈ _ by decide) _),
        skipSpace_cons (show isSpace ',' = false by decide), hstarts.skipSpace]
      rw [putFirst_of_notMem hnames.1]
      rfl

/-! ### Blocks -/

theorem isSpace_of_mem_lineStart {indent : Option Nat} {depth : Nat} {c : Char}
    (h : c ∈ (lineStart indent depth).toList) : isSpace c = true := by
  cases indent with
  | none => cases h
  | some width =>
    have hc : c = '\n' ∨ c = ' ' := by
      simp only [lineStart, String.toList_append, String.toList_ofList, List.mem_append,
        List.mem_replicate] at h
      rcases h with h | h
      · exact .inl (by simpa using h)
      · exact .inr h.2
    rcases hc with rfl | rfl <;> rfl

section

variable (indent : Option Nat) (depth : Nat) {texts : List String}

theorem toList_writeBlock (left right : String) (hne : texts ≠ []) :
    ∃ (sep : String) (gap : List Char), sep.toList = ',' :: gap ∧
      (∀ c ∈ gap, isSpace c = true) ∧
      (writeBlock indent depth left right texts).toList =
        left.toList ++ ((lineStart indent (depth + 1)).toList ++
          ((sep.intercalate texts).toList ++
            ((lineStart indent depth).toList ++ right.toList))) := by
  have hfull : texts.isEmpty = false := by simpa using hne
  cases indent with
  | none =>
    refine ⟨", ", [' '], rfl, List.forall_mem_singleton.2 rfl, ?_⟩
    simp [writeBlock, hfull]
  | some width =>
    refine ⟨"," ++ lineStart (some width) (depth + 1), (lineStart (some width) (depth + 1)).toList,
      by simp, fun c hc => isSpace_of_mem_lineStart hc, ?_⟩
    simp [writeBlock, hfull]

/-- What stands behind the opening character of a block is read as the texts between its
brackets. -/
theorem ReadsUpTo.writeBlock {α : Type} {inside : Nat → Reader α} {left right : String}
    {l r : Char} {a : α} (h : ReadsUpTo inside r texts a) (hleft : left.toList = [l])
    (hright : right.toList = [r]) (hne : texts ≠ [])
    (hstarts : ∀ text ∈ texts, Starts text.toList) (rest : List Char) :
    ∃ opening, (Json.writeBlock indent depth left right texts).toList ++ rest = l :: opening ∧
      Starts (Json.skipSpace opening) ∧
      inside (Json.skipSpace opening).length (Json.skipSpace opening) = .ok (a, rest) := by
  obtain ⟨sep, gap, hsep, hgap, hblock⟩ := toList_writeBlock indent depth left right hne
  let inner := (sep.intercalate texts).toList ++ ((lineStart indent depth).toList ++ r :: rest)
  have hinner : Starts inner := by
    obtain ⟨text, texts, rfl⟩ := List.exists_cons_of_ne_nil hne
    exact ((hstarts text List.mem_cons_self).intercalate sep texts).append _
  have hskip : Json.skipSpace ((lineStart indent (depth + 1)).toList ++ inner) = inner := by
    rw [skipSpace_append fun c hc => isSpace_of_mem_lineStart hc, hinner.skipSpace]
  have hbound : texts.length ≤ inner.length := by
    have hlength := Starts.length_le_intercalate hstarts sep
    rw [List.length_append]
    omega
  refine ⟨(lineStart indent (depth + 1)).toList ++ inner, ?_, by rwa [hskip], ?_⟩
  · simp [hblock, hleft, hright, inner]
  · rw [hskip]
    exact h sep gap _ rest _ hsep hgap (fun c hc => isSpace_of_mem_lineStart hc) hbound

theorem readValue_bracket {opening : List Char} (h : Starts (skipSpace opening)) (room : Nat) :
    readValue (room + 1) ('[' :: opening) =
      (readItems (readValue room) (skipSpace opening).length (skipSpace opening)).map
        fun (items, after) => (.list items, after) := by
  obtain ⟨c, rest, hskip, hc⟩ := h
  have hclose : c ≠ ']' := by
    rintro rfl
    exact hc (by decide)
  rw [readValue, hskip]
  split
  next heq => exact absurd (List.cons.inj heq).1 hclose
  next => cases readItems (readValue room) (c :: rest).length (c :: rest) <;> rfl

theorem readValue_brace {opening : List Char} (h : Starts (skipSpace opening)) (room : Nat) :
    readValue (room + 1) ('{' :: opening) =
      (readEntries (readValue room) (skipSpace opening).length (skipSpace opening)).map
        fun (entries, after) => (.record entries, after) := by
  obtain ⟨c, rest, hskip, hc⟩ := h
  have hclose : c ≠ '}' := by
    rintro rfl
    exact hc (by decide)
  rw [readValue, hskip]
  split
  next heq => exact absurd (List.cons.inj heq).1 hclose
  next => cases readEntries (readValue room) (c :: rest).length (c :: rest) <;> rfl

variable {room : Nat} {write : Value → String}

/-- A list comes back from its text if its items do. -/
theorem reads_list {items : List Value} (h : ∀ v ∈ items, Reads (readValue room) (write v) v) :
    Reads (readValue (room + 1)) (writeBlock indent depth "[" "]" (items.map write))
      (.list items) := by
  intro rest _
  by_cases hne : items = []
  · subst hne
    show readValue (room + 1) (("[" ++ "]").toList ++ rest) = _
    rw [show ("[" ++ "]").toList = ['[', ']'] by decide]
    rfl
  · have hstarts : ∀ text ∈ items.map write, Starts text.toList := by
      simp only [List.mem_map, forall_exists_index, and_imp, forall_apply_eq_imp_iff₂]
      exact fun v hv => (h v hv).starts
    obtain ⟨opening, htext, hopening, hread⟩ := (readsUpTo_items h hne).writeBlock indent depth
      (show "[".toList = ['['] by decide) (show "]".toList = [']'] by decide) (by simpa using hne)
      hstarts rest
    rw [htext, readValue_bracket hopening, hread]
    rfl

/-- A record comes back from its text if its values do, unless it has a name twice. -/
theorem reads_record {entries : List (String × Value)}
    (h : ∀ entry ∈ entries, Reads (readValue room) (write entry.2) entry.2)
    (hnodup : (entries.map Prod.fst).Nodup) :
    Reads (readValue (room + 1))
      (writeBlock indent depth "\x7b" "\x7d" (entries.map (entryText write)))
      (.record entries) := by
  intro rest _
  by_cases hne : entries = []
  · subst hne
    show readValue (room + 1) (("\x7b" ++ "\x7d").toList ++ rest) = _
    rw [show ("\x7b" ++ "\x7d").toList = ['{', '}'] by decide]
    rfl
  · have hstarts : ∀ text ∈ entries.map (entryText write), Starts text.toList := by
      simp only [List.mem_map, forall_exists_index, and_imp, forall_apply_eq_imp_iff₂]
      exact fun entry _ => starts_entryText write entry
    obtain ⟨opening, htext, hopening, hread⟩ :=
      (readsUpTo_entries h hne hnodup).writeBlock indent depth
        (show "\x7b".toList = ['{'] by decide) (show "\x7d".toList = ['}'] by decide)
        (by simpa using hne) hstarts rest
    rw [htext, readValue_brace hopening, hread]
    rfl

end

/-! ### Data -/

theorem writeItems_eq_map (indent : Option Nat) (depth : Nat) (items : List Value) :
    writeItems indent depth items = items.map (writeAt indent depth) := by
  induction items with
  | nil => rw [writeItems, List.map_nil]
  | cons v items ih => rw [writeItems, ih, List.map_cons]

theorem writeEntries_eq_map (indent : Option Nat) (depth : Nat)
    (entries : List (String × Value)) :
    writeEntries indent depth entries = entries.map (entryText (writeAt indent depth)) := by
  induction entries with
  | nil => rw [writeEntries, List.map_nil]
  | cons entry entries ih => rw [writeEntries, ih, List.map_cons, entryText]

/-- Data that its JSON text denotes, with at most so many levels of nesting. -/
inductive Denoted : Nat → Value → Prop
  | boolean (n : Nat) (b : Bool) : Denoted (n + 1) (.boolean b)
  | absent (n : Nat) : Denoted (n + 1) .absent
  | string (n : Nat) (s : String) : Denoted (n + 1) (.string s)
  | number (n : Nat) {x : Float} : magnitude x < infinityBits → Denoted (n + 1) (.number x)
  | integer (n : Nat) {i : Int} : (Nat.toDigits 10 i.natAbs).length ≤ maxIntegerDigits →
      Denoted (n + 1) (.integer i)
  | list {n : Nat} {items : List Value} : (∀ v ∈ items, Denoted n v) →
      Denoted (n + 1) (.list items)
  | record {n : Nat} {entries : List (String × Value)} : (entries.map Prod.fst).Nodup →
      (∀ entry ∈ entries, Denoted n entry.2) → Denoted (n + 1) (.record entries)

/-- Data comes back from its text, at any depth. -/
theorem Denoted.reads {n : Nat} {v : Value} (h : Denoted n v) (indent : Option Nat) (depth : Nat)
    {room : Nat} (hroom : n ≤ room) : Reads (readValue room) (writeAt indent depth v) v := by
  induction h generalizing depth room with
  | boolean n b =>
    obtain ⟨room, rfl⟩ := Nat.exists_eq_add_of_le' hroom
    rw [writeAt]
    exact reads_boolean b (room + n)
  | absent n =>
    obtain ⟨room, rfl⟩ := Nat.exists_eq_add_of_le' hroom
    rw [writeAt]
    exact reads_absent (room + n)
  | string n s =>
    obtain ⟨room, rfl⟩ := Nat.exists_eq_add_of_le' hroom
    rw [writeAt]
    exact reads_string s (room + n)
  | number n hx =>
    obtain ⟨room, rfl⟩ := Nat.exists_eq_add_of_le' hroom
    rw [writeAt]
    exact reads_number hx (room + n)
  | integer n hi =>
    obtain ⟨room, rfl⟩ := Nat.exists_eq_add_of_le' hroom
    rw [writeAt]
    exact reads_integer hi (room + n)
  | @list n items hitems ih =>
    obtain ⟨room, rfl⟩ := Nat.exists_eq_add_of_le' hroom
    rw [writeAt, writeItems_eq_map]
    exact reads_list indent depth fun v hv => ih v hv (depth + 1) (Nat.le_add_left n room)
  | @record n entries hnodup hentries ih =>
    obtain ⟨room, rfl⟩ := Nat.exists_eq_add_of_le' hroom
    rw [writeAt, writeEntries_eq_map]
    exact reads_record indent depth
      (fun entry hentry => ih entry hentry (depth + 1) (Nat.le_add_left n room)) hnodup

/-- Data comes back from its text, for everything that JSON can denote within the room for
nesting. -/
theorem Denoted.read_writeIndented {v : Value} (h : Denoted nestingRoom v) :
    read (writeIndented v) = .ok v := by
  have hreads : Reads (readValue nestingRoom) (writeIndented v) v :=
    h.reads (some 2) 0 (Nat.le_refl nestingRoom)
  have hread := hreads [] nofun
  rw [List.append_nil] at hread
  unfold read
  rw [hreads.starts.skipSpace, hread]
  rfl

end LoxTree.Json
