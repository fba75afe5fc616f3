import LoxTree.Disk
import LoxTree.Proofs.Encoding.Json
import LoxTree.Text.Newline

/-!
# Trees come back from files

A tree that is written to a file as JSON is read back from the file. On the way are the file, which
is found where it was put (`Disk.locate_put`), its bytes, which spell the text as it is because no
carriage return stands in it (`Json.Denoted.carriageReturn_notMem`, `Text.ofBytes?_toUTF8`), the
text, and the data (`Tree.denoted_of_toData`). `Tree.Storable` says what a tree must be for that,
and `Tree.Storable.exists_data` goes the whole way.
-/

namespace LoxTree

/-! ### Files -/

/-- The spot where a file can be written: one lies there, or nothing does. -/
def Place.spot? : Place → Option Spot
  | .file spot _ | .vacant spot => some spot
  | .directory | .unnameable | .nowhere => none

namespace Disk

variable {disk : Disk} {spot : Spot}

theorem contents?_put_self (bytes : ByteArray) :
    (disk.put spot bytes).contents? spot = some bytes := by
  simp [contents?, put]

theorem contents?_put_of_ne {other : Spot} (h : other ≠ spot) (bytes : ByteArray) :
    (disk.put spot bytes).contents? other = disk.contents? other := by
  have hne : (other == spot) = false := by simpa using h
  have hrest : ∀ files : List (Spot × ByteArray),
      (files.filter fun file => file.1 != spot).lookup other = files.lookup other := by
    intro files
    induction files with
    | nil => rfl
    | cons file files ih =>
      obtain ⟨s, old⟩ := file
      by_cases hs : s = spot
      · subst hs
        rw [List.filter_cons_of_neg (by simp), ih, List.lookup_cons, hne]
      · rw [List.filter_cons_of_pos (by simpa using hs), List.lookup_cons, List.lookup_cons, ih]
  show List.lookup other ((spot, bytes) :: _) = _
  rw [List.lookup_cons, hne]
  exact hrest disk.files

/-- No directory is in the way where a file can be written. -/
theorem isDirectory_of_follow {directory : Spot} {names : List String}
    (h : (disk.follow directory names).spot? = some spot) (hnone : disk.contents? spot = none) :
    disk.isDirectory spot = false := by
  induction names generalizing directory with
  | nil => cases h
  | cons name rest ih =>
    unfold follow at h
    dsimp only at h
    split at h
    · exact ih h
    split at h
    · cases h
    split at h
    next bytes hbytes =>
      split at h
      · cases h
        rw [hbytes] at hnone
        cases hnone
      · cases h
    next =>
      split at h
      · exact ih h
      next hdir =>
        split at h
        · cases h
          simpa using hdir
        · cases h

/-- A file is found where it was put. -/
theorem follow_put {directory : Spot} {names : List String}
    (h : (disk.follow directory names).spot? = some spot) (bytes : ByteArray) :
    (disk.put spot bytes).follow directory names = .file spot bytes := by
  induction names generalizing directory with
  | nil => cases h
  | cons name rest ih =>
    have hclear := isDirectory_of_follow h
    unfold follow at h ⊢
    dsimp only at h ⊢
    split at h
    next hup => rw [if_pos hup, ih h]
    next hup =>
    rw [if_neg hup]
    split at h
    · cases h
    next hlong =>
    rw [if_neg hlong]
    split at h
    next old hold =>
      split at h
      next hlast =>
        cases h
        rw [contents?_put_self]
        dsimp only
        rw [if_pos hlast]
      next => cases h
    next hnone =>
      split at h
      next hdir =>
        -- the way goes on through a directory, which is not the spot
        have hne : directory ++ [name] ≠ spot := by
          rintro rfl
          rw [hclear hnone] at hdir
          cases hdir
        have hdir' : (disk.put spot bytes).isDirectory (directory ++ [name]) = true := hdir
        rw [contents?_put_of_ne hne, hnone]
        dsimp only
        rw [if_pos hdir', ih h]
      next hdir =>
        split at h
        next hlast =>
          cases h
          rw [contents?_put_self]
          dsimp only
          rw [if_pos hlast]
        next => cases h

theorem locate_put {p : FilePath} (h : (disk.locate p).spot? = some spot) (bytes : ByteArray) :
    (disk.put spot bytes).locate p = .file spot bytes := by
  unfold locate at h ⊢
  split at h
  · cases h
  next hlong =>
    rw [if_neg hlong]
    exact follow_put h bytes

end Disk

/-! ### Texts -/

theorem Text.unifyNewlinesList_of_notMem {cs : List Char} (h : '\r' ∉ cs) :
    unifyNewlinesList cs = cs := by
  fun_induction unifyNewlinesList cs with
  | case1 => rfl
  | case2 => simp at h
  | case3 c rest _ ih =>
    rw [List.mem_cons, not_or] at h
    rw [if_neg (Ne.symm h.1), ih h.2]

/-- A text without carriage returns is what the bytes of a file spell. -/
theorem Text.ofBytes?_toUTF8 {text : String} (h : '\r' ∉ text.toList) :
    ofBytes? text.toUTF8 = some text := by
  have hutf8 : String.fromUTF8? text.toUTF8 = some text := dif_pos text.isValidUTF8
  rw [ofBytes?, hutf8, Option.map_some, unifyNewlines, unifyNewlinesList_of_notMem h,
    String.ofList_toList]

namespace Json

open Number

theorem carriageReturn_notMem_escapedChar (c : Char) : '\r' ∉ escapedChar c := by
  have hhex : ∀ n < 32, '\r' ∉ Text.hexDigits 4 n := by decide
  unfold escapedChar
  split_ifs with h₁ h₂ h₃ h₄ h₅ h₆ h₇ h₈
  iterate 7
    · decide
  · have hdigits := hhex c.toNat h₈
    simpa using hdigits
  · simpa using Ne.symm h₄

theorem carriageReturn_notMem_writeString (s : String) : '\r' ∉ (writeString s).toList := by
  have hchars : '\r' ∉ s.toList.flatMap escapedChar := by
    simpa using fun c _ => carriageReturn_notMem_escapedChar c
  simpa [writeString] using hchars

theorem carriageReturn_notMem_toDigits (n : Nat) : '\r' ∉ Nat.toDigits 10 n :=
  fun h => holds_of_isDigit (fun d => d ≠ '\r') (by decide) (isDigit_of_mem_toDigits h) rfl

theorem carriageReturn_notMem_number {x : Float} (hx : magnitude x < infinityBits) :
    '\r' ∉ (numberLayout.write x).toList := by
  obtain ⟨w, hw, hwrite, -⟩ := numberLayout.exists_written toList_wholeMark rfl hx
  have htext : '\r' ∉ w.text := fun h => absurd (hw.unchanged_text _ h).notMargin (by decide)
  rw [hwrite, String.toList_ofList]
  cases isNegative x <;> simpa using htext

theorem carriageReturn_notMem_intercalate {sep : String} (hsep : '\r' ∉ sep.toList)
    {texts : List String} (h : ∀ text ∈ texts, '\r' ∉ text.toList) :
    '\r' ∉ (sep.intercalate texts).toList := by
  induction texts with
  | nil => simp
  | cons text texts ih =>
    have htext := h text List.mem_cons_self
    have ih := ih fun t ht => h t (List.mem_cons_of_mem text ht)
    cases texts with
    | nil => rwa [String.intercalate_singleton]
    | cons next texts =>
      rw [String.intercalate_cons_cons]
      simp [htext, hsep] at ih ⊢
      exact ih

theorem carriageReturn_notMem_writeBlock (indent : Option Nat) (depth : Nat) {left right : String}
    (hleft : '\r' ∉ left.toList) (hright : '\r' ∉ right.toList) {texts : List String}
    (h : ∀ text ∈ texts, '\r' ∉ text.toList) :
    '\r' ∉ (writeBlock indent depth left right texts).toList := by
  have hline : ∀ depth, '\r' ∉ (lineStart indent depth).toList := by
    intro depth
    cases indent <;> simp [lineStart]
  have hitems : ∀ sep : String, '\r' ∉ sep.toList → '\r' ∉ (sep.intercalate texts).toList :=
    fun sep hsep => carriageReturn_notMem_intercalate hsep h
  unfold writeBlock
  split
  · simp [hleft, hright]
  · simp only [String.toList_append, List.mem_append, not_or]
    refine ⟨⟨⟨⟨hleft, hline (depth + 1)⟩, hitems _ ?_⟩, hline depth⟩, hright⟩
    cases indent with
    | none => simp
    | some width => simpa using hline (depth + 1)

/-- No carriage return stands in the text of data. -/
theorem Denoted.carriageReturn_notMem {n : Nat} {v : Value} (h : Denoted n v)
    (indent : Option Nat) (depth : Nat) : '\r' ∉ (writeAt indent depth v).toList := by
  induction h generalizing depth with
  | boolean n b =>
    rw [writeAt]
    cases b <;> decide
  | absent n =>
    rw [writeAt]
    decide
  | string n s =>
    rw [writeAt]
    exact carriageReturn_notMem_writeString s
  | number n hx =>
    rw [writeAt]
    exact carriageReturn_notMem_number hx
  | @integer n i hi =>
    have hdigits := carriageReturn_notMem_toDigits i.natAbs
    rw [writeAt, toList_toString_int]
    cases decide (i < 0) <;> simpa using hdigits
  | list _ ih =>
    rw [writeAt, writeItems_eq_map]
    refine carriageReturn_notMem_writeBlock indent depth (by decide) (by decide) ?_
    simpa using fun v hv => ih v hv (depth + 1)
  | record _ _ ih =>
    rw [writeAt, writeEntries_eq_map]
    refine carriageReturn_notMem_writeBlock indent depth (by decide) (by decide) ?_
    intro text htext
    obtain ⟨entry, hentry, rfl⟩ := List.mem_map.1 htext
    have hname := carriageReturn_notMem_writeString entry.1
    simp only [entryText, String.toList_append, List.mem_append, not_or]
    exact ⟨⟨hname, by decide⟩, ih entry hentry (depth + 1)⟩

end Json

/-! ### Trees -/

namespace Tree

theorem mem_tokens_of_mem_parts {τ : Type} {t part : Tree τ} (hpart : part ∈ t.parts) {tok : τ}
    (htok : tok ∈ part.tokens) : tok ∈ t.tokens := by
  have ht : ∀ x, t ≠ token x := by
    rintro x rfl
    cases hpart
  rw [tokens_eq_flatMap ht]
  exact List.mem_flatMap.2 ⟨part, hpart, htok⟩

/-- A tree that can be written to a file and read back: there is room for its levels, its literals
carry values of the language, and no line has more digits than an integer may have. -/
structure Storable (t : Tree) : Prop where
  depth : 2 * t.depth ≤ nestingRoom
  literals : ∀ v ∈ t.literals, v.isLox = true
  lines : ∀ tok ∈ t.tokens,
    (Nat.toDigits 10 tok.line.natAbs).length ≤ Json.maxIntegerDigits

open Json (Denoted)

theorem denoted_encode_value {v : Value} (h : v.isLox = true) (n : Nat) :
    Denoted (n + 2) v.encode := by
  cases v with
  | boolean b => exact .boolean (n + 1) b
  | string s => exact .string (n + 1) s
  | nil => exact .record (by simp) (by simpa using .boolean n true)
  | number x =>
    unfold Value.encode
    dsimp only
    split
    next hx => exact .number (n + 1) hx
    next =>
      split
      · exact .record (by simp) (by simpa using .string n _)
      · exact .record (by simp) (by simpa using .string n _)
  | _ => cases h

theorem denoted_token {t : Token}
    (h : (Nat.toDigits 10 t.line.natAbs).length ≤ Json.maxIntegerDigits) (n : Nat) :
    Denoted (n + 2) t.record.toData := by
  have hnodup : ["__token__", "lexeme", "literal", "line"].Nodup := by decide
  refine .record hnodup ?_
  simp only [List.mem_cons, List.not_mem_nil, or_false, forall_eq_or_imp, forall_eq]
  refine ⟨.string n _, .string n _, ?_, .integer n h⟩
  show Denoted (n + 1) ((t.literal.map Value.string).getD .absent)
  cases t.literal with
  | none => exact .absent n
  | some s => exact .string n s

theorem Entries.names {τ : Type} {R : Tree τ → Value → Prop} {fields : List (String × Tree τ)}
    {entries : List (String × Value)} (h : Entries R fields entries) :
    entries.map Prod.fst = fields.map Prod.fst := by
  induction h with
  | nil => rfl
  | cons hentry _ ih => rw [List.map_cons, List.map_cons, hentry.1, ih]

theorem Entries.exists_of_mem {τ : Type} {R : Tree τ → Value → Prop}
    {fields : List (String × Tree τ)} {entries : List (String × Value)}
    (h : Entries R fields entries) {entry : String × Value} (hmem : entry ∈ entries) :
    ∃ field ∈ fields, R field.2 entry.2 := by
  induction h with
  | nil => cases hmem
  | @cons field _ _ _ hentry _ ih =>
    rcases List.mem_cons.1 hmem with rfl | hmem
    · exact ⟨field, List.mem_cons_self, hentry.2⟩
    · obtain ⟨other, hother, hR⟩ := ih hmem
      exact ⟨other, List.mem_cons_of_mem field hother, hR⟩

theorem entries_of_toData {room : Nat} {fields : List (String × Tree TokenRecord)}
    {entries : List (String × Value)}
    (h : fields.mapM (fun (name, part) => do return (name, ← toData room part)) = .ok entries) :
    Entries (fun part data => part.toData room = .ok data) fields entries := by
  refine (mapM_eq_ok_iff.1 h).imp ?_
  rintro ⟨name, part⟩ entry hentry
  obtain ⟨data, hdata, hentry⟩ := except_bind_eq_ok hentry
  cases hentry
  exact ⟨rfl, hdata⟩

/-- The data of a tree are such that JSON can hold them. -/
theorem denoted_of_toData {n room : Nat} {t : Tree TokenRecord} {data : Value}
    (hdepth : t.depth ≤ n) (hliterals : ∀ v ∈ t.literals, v.isLox = true)
    (htokens : ∀ tok ∈ t.tokens, ∀ n, Denoted (n + 2) tok.toData)
    (h : t.toData room = .ok data) : Denoted (n + 2) data := by
  induction n generalizing t room data with
  | zero =>
    have hpos := t.depth_pos
    omega
  | succ n ih =>
    have hparts : ∀ part ∈ t.parts, ∀ r d, part.toData r = .ok d → Denoted (n + 2) d := by
      intro part hpart r d hd
      refine ih (depth_le_succ_iff.1 hdepth part hpart) (fun v hv => ?_) (fun tok htok => ?_) hd
      · exact hliterals v (mem_literals_of_mem_parts hpart hv)
      · exact htokens tok (mem_tokens_of_mem_parts hpart htok)
    -- nothing is written without room
    obtain ⟨r, rfl⟩ : ∃ r, room = r + 1 := by
      cases room with
      | zero =>
        rw [toData.eq_7] at h
        cases h
      | succ r => exact ⟨r, rfl⟩
    by_cases hnode : t.fields = []
    · cases t with
      | missing =>
        rw [toData.eq_3] at h
        cases h
        exact .absent (n + 2)
      | list items =>
        cases r with
        | zero => cases h
        | succ r =>
          rw [toData] at h
          obtain ⟨datas, hdatas, h⟩ := except_bind_eq_ok h
          cases h
          refine .list fun d hd => ?_
          obtain ⟨item, hitem, hd⟩ := exists_of_mem_mapM hdatas hd
          exact hparts item hitem r d hd
      | token tok =>
        have htoken := htokens tok (by simp [tokens_token])
        rw [toData.eq_4] at h
        cases h
        exact htoken (n + 1)
      | literal v =>
        have hv := hliterals v (by simp [literals])
        rw [toData.eq_5] at h
        cases h
        refine .record (by simp) ?_
        simpa using ⟨.string (n + 1) _, denoted_encode_value hv n⟩
      | _ => cases hnode
    · rw [toData_node hnode] at h
      obtain ⟨entries, hentries, h⟩ := except_bind_eq_ok h
      cases h
      have hentries := entries_of_toData hentries
      refine .record ?_ fun entry hentry => ?_
      · rw [List.map_cons, Entries.names hentries, List.nodup_cons]
        exact ⟨(fieldNames_notMem t).1, fieldNames_nodup t⟩
      · rcases List.mem_cons.1 hentry with rfl | hentry
        · exact .string (n + 1) _
        · obtain ⟨field, hfield, hdata⟩ := Entries.exists_of_mem hentries hentry
          refine hparts field.2 ?_ r entry.2 hdata
          rw [parts_of_fields hnode]
          exact List.mem_map_of_mem hfield

/-- A tree comes back from a file: it is encoded as data, the text of the data is what the bytes of
the file spell, and the data that the text denotes are decoded to the tree. -/
theorem Storable.exists_data {t : Tree} (h : t.Storable) :
    ∃ data, t.encode nestingRoom = .ok data ∧
      Text.ofBytes? (Json.writeIndented data).toUTF8 = some (Json.writeIndented data) ∧
      Json.read (Json.writeIndented data) = .ok data ∧ decode nestingRoom data = .ok t := by
  have hpayload : ∀ v ∈ t.literals, v.isPayload = true := by
    intro v hv
    have hlox := h.literals v hv
    cases v with
    | integer | record => cases hlox
    | _ => rfl
  obtain ⟨data, hencode, hdecode⟩ := exists_encode h.depth hpayload
  have hdenoted : Denoted nestingRoom data := by
    have hdepth : (t.map Token.record).depth ≤ nestingRoom - 2 := by
      have hlevels := h.depth
      rw [depth_map]
      unfold nestingRoom at hlevels ⊢
      omega
    refine denoted_of_toData hdepth ?_ ?_ hencode
    · rw [literals_map]
      exact h.literals
    · rw [tokens_map]
      exact List.forall_mem_map.2 fun tok htok => denoted_token (h.lines tok htok)
  exact ⟨data, hencode, Text.ofBytes?_toUTF8 (hdenoted.carriageReturn_notMem (some 2) 0),
    hdenoted.read_writeIndented, hdecode⟩

end Tree

end LoxTree
