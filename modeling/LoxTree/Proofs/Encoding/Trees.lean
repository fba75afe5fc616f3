import LoxTree.Proofs.Number.Doubles
import LoxTree.Tree.Encode
import Mathlib.Data.List.Forall2
import Mathlib.Data.Nat.Init

/-!
# Trees come back from their data

Reading undoes writing, for every tree of the full language whose literals carry a value of the
language, nothing or a list, whatever data its tokens carry. Writing and reading need room for every
level of a tree, and two units of room for each level are enough for both. What holds of trees with
any data in their tokens holds of the trees of programs, which are such trees.

* `Tree.depth`, `Tree.literals`: the levels and the literals of a tree.
* `Value.decode_encode`: the value of a literal comes back, NaN and the sign of zero included.
* `Tree.exists_data`: a tree has data that it is written as and read from.
* `Tree.fits_of_ofData`: a tree that was read has room to be written and read again.
* `Tree.ofRecords_map_record`: the tree of a program comes back from the records of its tokens.
* `Tree.decode_encode_lossless`: both directions.
-/

namespace LoxTree

open Number

/-! ### Steps that go well -/

theorem except_bind_eq_ok {α β : Type} {x : Except Fault α} {k : α → Except Fault β} {b : β}
    (h : (x >>= k) = .ok b) : ∃ a, x = .ok a ∧ k a = .ok b := by
  cases x with
  | error f => cases h
  | ok a => exact ⟨a, rfl, h⟩

/-- A step on every item goes well if it does on each. -/
theorem mapM_eq_ok_iff {α β : Type} {f : α → Except Fault β} {items : List α} {results : List β} :
    items.mapM f = .ok results ↔ List.Forall₂ (fun a b => f a = .ok b) items results := by
  induction items generalizing results with
  | nil =>
    rw [List.mapM_nil, List.forall₂_nil_left_iff]
    constructor
    · intro h
      cases h
      rfl
    · rintro rfl
      rfl
  | cons a rest ih =>
    rw [List.mapM_cons]
    constructor
    · intro h
      obtain ⟨b, hb, h⟩ := except_bind_eq_ok h
      obtain ⟨bs, hbs, h⟩ := except_bind_eq_ok h
      cases h
      exact .cons hb (ih.1 hbs)
    · intro h
      cases h with
      | cons hb hbs =>
        rw [hb, ih.2 hbs]
        rfl

theorem exists_of_mem_mapM {α β : Type} {f : α → Except Fault β} {items : List α}
    {results : List β} (h : items.mapM f = .ok results) {b : β} (hb : b ∈ results) :
    ∃ a ∈ items, f a = .ok b := by
  induction mapM_eq_ok_iff.1 h with
  | nil => cases hb
  | @cons a c _ _ hc hrest ih =>
    rcases List.mem_cons.1 hb with rfl | hb
    · exact ⟨a, List.mem_cons_self, hc⟩
    · obtain ⟨a', ha', hb⟩ := ih (mapM_eq_ok_iff.2 hrest) hb
      exact ⟨a', List.mem_cons_of_mem a ha', hb⟩

/-! ### Levels and literals -/

namespace Tree

section

variable {τ σ : Type}

/-- The number of levels of a tree. -/
def depth (t : Tree τ) : Nat :=
  (t.parts.attach.map fun part => depth part.1).foldr max 0 + 1
termination_by sizeOf t
decreasing_by exact sizeOf_lt_of_mem_parts part.2

/-- The values of the literals in a tree. -/
def literals (t : Tree τ) : List Value :=
  match t with
  | literal v => [v]
  | t => t.parts.attach.flatMap fun part => literals part.1
termination_by sizeOf t
decreasing_by exact sizeOf_lt_of_mem_parts part.2

theorem foldr_max_le_iff {n : Nat} (ns : List Nat) : ns.foldr max 0 ≤ n ↔ ∀ m ∈ ns, m ≤ n := by
  induction ns with
  | nil => simp
  | cons m rest ih =>
    simp only [List.foldr_cons, List.mem_cons, forall_eq_or_imp, ← ih]
    omega

theorem depth_le_succ_iff {t : Tree τ} {n : Nat} :
    t.depth ≤ n + 1 ↔ ∀ part ∈ t.parts, part.depth ≤ n := by
  rw [depth, Nat.add_le_add_iff_right, foldr_max_le_iff]
  simp

theorem depth_pos (t : Tree τ) : 0 < t.depth := by
  rw [depth]
  exact Nat.succ_pos _

theorem literals_eq_flatMap {t : Tree τ} (ht : ∀ v, t ≠ literal v) :
    t.literals = t.parts.flatMap literals := by
  rw [literals.eq_2 t ht, List.flatMap_subtype fun _ _ => rfl, List.unattach_attach]

theorem mem_literals_of_mem_parts {t part : Tree τ} (hpart : part ∈ t.parts) {v : Value}
    (hv : v ∈ part.literals) : v ∈ t.literals := by
  have ht : ∀ w, t ≠ literal w := by
    rintro w rfl
    cases hpart
  rw [literals_eq_flatMap ht]
  exact List.mem_flatMap.2 ⟨part, hpart, hv⟩

theorem exists_mem_parts_of_mem_literals {t : Tree τ} (ht : ∀ v, t ≠ literal v) {v : Value}
    (hv : v ∈ t.literals) : ∃ part ∈ t.parts, v ∈ part.literals := by
  rw [literals_eq_flatMap ht] at hv
  exact List.mem_flatMap.1 hv

theorem depth_map (f : τ → σ) (t : Tree τ) : (t.map f).depth = t.depth := by
  induction t using parts_induction with
  | parts t ih =>
    rw [depth, depth, List.attach_map_val, List.attach_map_val, parts_map, List.map_map]
    exact congrArg (List.foldr max 0 · + 1) (List.map_congr_left ih)

theorem map_ne_literal (f : τ → σ) {t : Tree τ} (ht : ∀ v, t ≠ literal v) (v : Value) :
    t.map f ≠ literal v := by
  cases t with
  | literal w => exact absurd rfl (ht w)
  | _ => simp [map]

theorem literals_map (f : τ → σ) (t : Tree τ) : (t.map f).literals = t.literals := by
  induction t using parts_induction with
  | parts t ih =>
    by_cases ht : ∃ v, t = literal v
    · obtain ⟨v, rfl⟩ := ht
      rw [map, literals, literals]
    · have hne : ∀ v, t ≠ literal v := fun v h => ht ⟨v, h⟩
      rw [literals_eq_flatMap (map_ne_literal f hne), literals_eq_flatMap hne, parts_map,
        List.flatMap_map]
      exact List.flatMap_congr ih

end

end Tree

/-! ### Values of literals -/

namespace Value

/-- Whether a literal keeps a value when it is encoded and decoded. An integer comes back as the
number that it is, and a record is never a value. -/
def isPayload : Value → Bool
  | integer _ | record _ => false
  | _ => true

theorem toNumber_eq_ok {v w : Value} (h : v.toNumber = .ok w) : w.isPayload = true := by
  have hinteger : ∀ {n : Int}, ofInteger n = .ok w → w.isPayload = true := by
    intro n h
    unfold ofInteger at h
    cases hx : floatOfInteger n with
    | error f =>
      rw [hx] at h
      cases h
    | ok x =>
      rw [hx] at h
      cases h
      rfl
  cases v with
  | string s =>
    have h : ofNumeral s = .ok w := h
    unfold ofNumeral at h
    split at h
    · cases h
      rfl
    · cases h
  | integer n => exact hinteger h
  | boolean b => exact hinteger h
  | number x =>
    cases h
    rfl
  | _ => cases h

/-- Decoding gives values that are kept. -/
theorem isPayload_of_decode {v w : Value} (h : v.decode = .ok w) : w.isPayload = true := by
  cases v with
  | integer n =>
    have h : (integer n).toNumber = .ok w := h
    exact toNumber_eq_ok h
  | record entries =>
    unfold decode at h
    dsimp only at h
    split at h
    · cases h
      rfl
    · split at h
      · exact toNumber_eq_ok h
      · cases h
  | _ =>
    cases h
    rfl

theorem readNumeral?_nan : readNumeral? "nan" = some (ofMagnitude false nanBits) :=
  rfl

theorem readNumeral?_infinity (negative : Bool) :
    readNumeral? (if negative then "-inf" else "inf") =
      some (ofMagnitude negative infinityBits) := by
  cases negative <;> rfl

theorem decode_numberRecord {word : String} {x : Float} (h : readNumeral? word = some x) :
    decode (.record [("__number__", .string word)]) = .ok (.number x) := by
  have hnil : List.lookup "__nil__" [("__number__", string word)] = none := rfl
  have hnumber : List.lookup "__number__" [("__number__", string word)] = some (string word) := rfl
  simp only [decode, hnil, hnumber, Option.any_none, Bool.false_eq_true, if_false, toNumber,
    ofNumeral, h]

/-- The value of a literal comes back from its data. -/
theorem decode_encode {v : Value} (h : v.isPayload = true) : v.encode.decode = .ok v := by
  cases v with
  | number x =>
    unfold encode
    dsimp only
    split
    · rfl
    · split
      next _ hnan => rw [decode_numberRecord readNumeral?_nan, eq_nan hnan]
      next hinf hnan =>
        have hmag : infinityBits = magnitude x := by omega
        rw [decode_numberRecord (readNumeral?_infinity _), hmag, ofMagnitude_magnitude]
  | integer => cases h
  | record => cases h
  | _ => rfl

end Value

/-! ### Tokens -/

theorem Kind.decode_name (kind : Kind) : Kind.decode (.string kind.name) = .ok kind := by
  simp only [Kind.decode, Kind.ofName?_name]

/-- A token comes back from its data, whatever they are. -/
theorem TokenRecord.ofEntries_toData (t : TokenRecord) :
    TokenRecord.ofEntries [("__token__", .string t.kind.name), ("lexeme", t.lexeme),
      ("literal", t.literal), ("line", t.line)] = .ok t := by
  show (Kind.decode (.string t.kind.name) >>= fun kind => _) = _
  rw [Kind.decode_name]
  rfl

/-- A token of the scanner comes back from its record. -/
theorem Token.token?_record (t : Token) : t.record.token? = some t := by
  obtain ⟨kind, lexeme, literal, line⟩ := t
  cases literal <;> rfl

/-! ### Nodes -/

namespace Tree

variable {τ : Type}

/-- A node is made of its class and its fields. -/
theorem ofFields?_className {t : Tree τ} {field : String → Except Fault (Tree τ)}
    (hne : t.fields ≠ []) (h : ∀ entry ∈ t.fields, field entry.1 = .ok entry.2) :
    ofFields? t.className field = some (.ok t) := by
  cases t with
  | missing | list | token | literal => exact absurd rfl hne
  | _ =>
    simp only [fields, List.mem_cons, List.not_mem_nil, or_false, forall_eq_or_imp, forall_eq] at h
    simp only [className, ofFields?, h]
    rfl

theorem fieldNames_nodup (t : Tree τ) : (t.fields.map Prod.fst).Nodup := by
  cases t <;> simp [fields]

theorem fieldNames_notMem (t : Tree τ) :
    "type" ∉ t.fields.map Prod.fst ∧ "__token__" ∉ t.fields.map Prod.fst := by
  cases t <;> simp [fields]

theorem parts_of_fields {t : Tree τ} (h : t.fields ≠ []) : t.parts = t.fields.map Prod.snd := by
  cases t with
  | list => exact absurd rfl h
  | _ => rfl

/-- A node all of whose fields were found. -/
structure Found (field : String → Except Fault (Tree τ)) (t : Tree τ) : Prop where
  isNode : t.fields ≠ []
  fields : ∀ entry ∈ t.fields, field entry.1 = .ok entry.2

section

variable {field : String → Except Fault (Tree τ)} {a b c : String} {t : Tree τ}

theorem found_one {make : Tree τ → Tree τ} (hmake : ∀ x, (make x).fields = [(a, x)])
    (h : (do return make (← field a)) = Except.ok t) : Found field t := by
  obtain ⟨x, ha, h⟩ := except_bind_eq_ok h
  cases h
  constructor <;> simp [hmake, ha]

theorem found_two {make : Tree τ → Tree τ → Tree τ}
    (hmake : ∀ x y, (make x y).fields = [(a, x), (b, y)])
    (h : (do return make (← field a) (← field b)) = Except.ok t) : Found field t := by
  obtain ⟨x, ha, h⟩ := except_bind_eq_ok h
  obtain ⟨y, hb, h⟩ := except_bind_eq_ok h
  cases h
  constructor <;> simp [hmake, ha, hb]

theorem found_three {make : Tree τ → Tree τ → Tree τ → Tree τ}
    (hmake : ∀ x y z, (make x y z).fields = [(a, x), (b, y), (c, z)])
    (h : (do return make (← field a) (← field b) (← field c)) = Except.ok t) : Found field t := by
  obtain ⟨x, ha, h⟩ := except_bind_eq_ok h
  obtain ⟨y, hb, h⟩ := except_bind_eq_ok h
  obtain ⟨z, hc, h⟩ := except_bind_eq_ok h
  cases h
  constructor <;> simp [hmake, ha, hb, hc]

end

/-- A node that is made of fields has them all. -/
theorem found_of_ofFields? {className : String} {field : String → Except Fault (Tree τ)}
    {t : Tree τ} (h : ofFields? className field = some (.ok t)) : Found field t := by
  unfold ofFields? at h
  split at h
  all_goals first
    | exact found_one (fun _ => rfl) (Option.some.inj h)
    | exact found_two (fun _ _ => rfl) (Option.some.inj h)
    | exact found_three (fun _ _ _ => rfl) (Option.some.inj h)
    | cases h

/-- A node is written as a record of its class and its fields. -/
theorem toData_node {t : Tree TokenRecord} (h : t.fields ≠ []) (room : Nat) :
    t.toData (room + 1) = (do
      let fields ← t.fields.mapM fun (name, part) => do return (name, ← toData room part)
      return .record (("type", .string t.className) :: fields)) := by
  refine toData.eq_6 t room ?_ ?_ ?_ ?_ ?_
  all_goals
    intros
    subst t
    exact h rfl

theorem className_ne_literal {t : Tree τ} (h : t.fields ≠ []) : t.className ≠ "Literal" := by
  cases t with
  | literal => exact absurd rfl h
  | _ => simp [className]

theorem ofData_of_token {entries : List (String × Value)} {t : TokenRecord}
    (htoken : (entries.lookup "__token__").isSome = true)
    (h : TokenRecord.ofEntries entries = .ok t) (room : Nat) :
    ofData (room + 2) (.record entries) = .ok (token t) := by
  rw [ofData, if_pos htoken, h]
  rfl

theorem ofData_of_literal {entries : List (String × Value)} {v w : Value}
    (htoken : entries.lookup "__token__" = none)
    (htype : entries.lookup "type" = some (.string "Literal"))
    (hvalue : requireEntry entries "value" = .ok v) (h : v.decode = .ok w) (room : Nat) :
    ofData (room + 2) (.record entries) = .ok (literal w) := by
  rw [ofData]
  simp only [htoken, htype, hvalue, Option.isSome_none, Bool.false_eq_true, if_false,
    Option.getD_some]
  show (v.decode >>= fun w => pure (literal w)) = _
  rw [h]
  rfl

/-- A record with a class is read as the node of the class. -/
theorem ofData_node {className : String} (hclass : className ≠ "Literal")
    {entries : List (String × Value)} (htoken : entries.lookup "__token__" = none)
    (htype : entries.lookup "type" = some (.string className)) (room : Nat) :
    ofData (room + 2) (.record entries) =
      (ofFields? className fun name => ofData room ((entries.lookup name).getD .absent)).getD
        (.error (.unknownNode (.string className))) := by
  rw [ofData]
  simp only [htoken, htype, Option.isSome_none, Bool.false_eq_true, if_false, Option.getD_some]
  cases ofFields? className fun name => ofData room ((entries.lookup name).getD .absent) <;> rfl

/-! ### There and back -/

/-- Data that a tree is written as and read from, in any room for the given number of levels. -/
structure IsData (levels : Nat) (t : Tree TokenRecord) (data : Value) : Prop where
  toData : ∀ room, 2 * levels ≤ room → t.toData room = .ok data
  ofData : ∀ room, 2 * levels ≤ room → ofData room data = .ok t

theorem exists_forall₂ {α β : Type} {R : α → β → Prop} {items : List α}
    (h : ∀ a ∈ items, ∃ b, R a b) : ∃ results, List.Forall₂ R items results := by
  induction items with
  | nil => exact ⟨[], .nil⟩
  | cons a rest ih =>
    obtain ⟨b, hb⟩ := h a List.mem_cons_self
    obtain ⟨bs, hbs⟩ := ih fun a ha => h a (List.mem_cons_of_mem _ ha)
    exact ⟨b :: bs, .cons hb hbs⟩

/-- Entries with the names of fields, each related to the field. -/
abbrev Entries (R : Tree τ → Value → Prop) (fields : List (String × Tree τ))
    (entries : List (String × Value)) : Prop :=
  List.Forall₂ (fun field entry => entry.1 = field.1 ∧ R field.2 entry.2) fields entries

theorem Entries.lookup_eq_none {R : Tree τ → Value → Prop} {fields : List (String × Tree τ)}
    {entries : List (String × Value)} (h : Entries R fields entries) {name : String}
    (hname : name ∉ fields.map Prod.fst) : entries.lookup name = none := by
  induction h with
  | nil => rfl
  | @cons field entry _ _ hentry _ ih =>
    rw [List.map_cons, List.mem_cons, not_or] at hname
    have hne : (name == entry.1) = false := by simpa [hentry.1] using hname.1
    rw [List.lookup_cons, hne]
    exact ih hname.2

theorem Entries.lookup_eq_some {R : Tree τ → Value → Prop} {fields : List (String × Tree τ)}
    {entries : List (String × Value)} (h : Entries R fields entries)
    (hnodup : (fields.map Prod.fst).Nodup) :
    ∀ field ∈ fields, ∃ data, entries.lookup field.1 = some data ∧ R field.2 data := by
  induction h with
  | nil => nofun
  | @cons field entry _ _ hentry _ ih =>
    intro other hother
    rw [List.map_cons, List.nodup_cons] at hnodup
    rw [List.lookup_cons]
    rcases List.mem_cons.1 hother with rfl | hother
    · have heq : (other.1 == entry.1) = true := by simp [hentry.1]
      rw [heq]
      exact ⟨entry.2, rfl, hentry.2⟩
    · have hne : (other.1 == entry.1) = false := by
        have hmem := List.mem_map_of_mem (f := Prod.fst) hother
        rw [hentry.1, beq_eq_false_iff_ne]
        exact fun heq => hnodup.1 (heq ▸ hmem)
      rw [hne]
      exact ih hnodup.2 other hother

theorem isData_leaf {n : Nat} {t : Tree TokenRecord} {data : Value}
    (hwrite : ∀ room, t.toData (room + 1) = .ok data)
    (hread : ∀ room, Tree.ofData (room + 2) data = .ok t) : IsData (n + 1) t data := by
  constructor
  · intro room hroom
    obtain ⟨r, rfl⟩ : ∃ r, room = r + 1 := ⟨room - 1, by omega⟩
    exact hwrite r
  · intro room hroom
    obtain ⟨r, rfl⟩ : ∃ r, room = r + 2 := ⟨room - 2, by omega⟩
    exact hread r

/-- A list has data if its items have. -/
theorem isData_list {n : Nat} {items : List (Tree TokenRecord)}
    (h : ∀ item ∈ items, ∃ data, IsData n item data) :
    ∃ data, IsData (n + 1) (list items) data := by
  obtain ⟨datas, hdatas⟩ := exists_forall₂ h
  refine ⟨.list datas, ?_, ?_⟩
  · intro room hroom
    obtain ⟨r, rfl⟩ : ∃ r, room = r + 2 := ⟨room - 2, by omega⟩
    have hmap : items.mapM (Tree.toData r) = .ok datas :=
      mapM_eq_ok_iff.2 (hdatas.imp fun _ _ hd => hd.toData r (by omega))
    rw [Tree.toData, hmap]
    rfl
  · intro room hroom
    obtain ⟨r, rfl⟩ : ∃ r, room = r + 2 := ⟨room - 2, by omega⟩
    have hmap : datas.mapM (Tree.ofData r) = .ok items :=
      mapM_eq_ok_iff.2 (hdatas.flip.imp fun _ _ hd => hd.ofData r (by omega))
    rw [Tree.ofData, hmap]
    rfl

/-- A node has data if its fields have. -/
theorem isData_node {n : Nat} {t : Tree TokenRecord} (hnode : t.fields ≠ [])
    (h : ∀ field ∈ t.fields, ∃ data, IsData n field.2 data) :
    ∃ data, IsData (n + 1) t data := by
  have hentry : ∀ field ∈ t.fields, ∃ entry : String × Value, entry.1 = field.1 ∧
      IsData n field.2 entry.2 := by
    intro field hfield
    obtain ⟨data, hdata⟩ := h field hfield
    exact ⟨(field.1, data), rfl, hdata⟩
  obtain ⟨entries, hentries⟩ := exists_forall₂ hentry
  obtain ⟨htype, htoken⟩ := fieldNames_notMem t
  refine ⟨.record (("type", .string t.className) :: entries), ?_, ?_⟩
  · intro room hroom
    obtain ⟨r, rfl⟩ : ∃ r, room = r + 1 := ⟨room - 1, by omega⟩
    have hmap : t.fields.mapM (fun (name, part) => do return (name, ← Tree.toData r part)) =
        .ok entries := by
      refine mapM_eq_ok_iff.2 (hentries.imp ?_)
      rintro ⟨name, part⟩ ⟨name', data⟩ ⟨rfl, hd⟩
      dsimp only at hd ⊢
      rw [hd.toData r (by omega)]
      rfl
    rw [toData_node hnode, hmap]
    rfl
  · intro room hroom
    obtain ⟨r, rfl⟩ : ∃ r, room = r + 2 := ⟨room - 2, by omega⟩
    have hnone : List.lookup "__token__" (("type", .string t.className) :: entries) = none :=
      Entries.lookup_eq_none hentries htoken
    rw [ofData_node (className_ne_literal hnode) hnone rfl, ofFields?_className hnode]
    · rfl
    · intro field hfield
      obtain ⟨data, hlookup, hdata⟩ :=
        Entries.lookup_eq_some hentries (fieldNames_nodup t) field hfield
      have hne : (field.1 == "type") = false := by
        rw [beq_eq_false_iff_ne]
        exact fun heq => htype (heq ▸ List.mem_map_of_mem hfield)
      rw [List.lookup_cons, hne]
      dsimp only
      rw [hlookup]
      exact hdata.ofData r (by omega)

/-- A tree has data in the room for its levels if its literals keep their values. -/
theorem exists_data {n : Nat} {t : Tree TokenRecord} (hdepth : t.depth ≤ n)
    (hliterals : ∀ v ∈ t.literals, v.isPayload = true) : ∃ data, IsData n t data := by
  induction n generalizing t with
  | zero =>
    have hpos := t.depth_pos
    omega
  | succ n ih =>
    have hparts : ∀ part ∈ t.parts, ∃ data, IsData n part data := fun part hpart =>
      ih (depth_le_succ_iff.1 hdepth part hpart) fun v hv =>
        hliterals v (mem_literals_of_mem_parts hpart hv)
    by_cases hnode : t.fields = []
    · cases t with
      | missing => exact ⟨.absent, isData_leaf toData.eq_3 ofData.eq_1⟩
      | list items => exact isData_list hparts
      | token tok =>
        exact ⟨_, isData_leaf (fun room => toData.eq_4 room tok)
          (ofData_of_token rfl (TokenRecord.ofEntries_toData tok))⟩
      | literal v =>
        have hv : v.isPayload = true := by
          apply hliterals
          rw [literals.eq_1]
          exact List.mem_singleton_self v
        exact ⟨_, isData_leaf (fun room => toData.eq_5 room v)
          (ofData_of_literal rfl rfl rfl (Value.decode_encode hv))⟩
      | _ => cases hnode
    · refine isData_node hnode fun field hfield => hparts field.2 ?_
      rw [parts_of_fields hnode]
      exact List.mem_map_of_mem hfield

/-- A tree with room for its levels is written, and its data are read as the same tree. -/
theorem exists_toData {room : Nat} {t : Tree TokenRecord} (hdepth : 2 * t.depth ≤ room)
    (hliterals : ∀ v ∈ t.literals, v.isPayload = true) :
    ∃ data, t.toData room = .ok data ∧ ofData room data = .ok t := by
  obtain ⟨data, hdata⟩ := exists_data (Nat.le_refl t.depth) hliterals
  exact ⟨data, hdata.toData room hdepth, hdata.ofData room hdepth⟩

/-- What reading makes of a record. -/
theorem ofData_record_eq_ok {room : Nat} {entries : List (String × Value)} {t : Tree TokenRecord}
    (h : ofData (room + 2) (.record entries) = .ok t) :
    (∃ tok, t = token tok) ∨ (∃ v w, t = literal w ∧ Value.decode v = .ok w) ∨
      Found (fun name => ofData room ((entries.lookup name).getD .absent)) t := by
  rw [ofData] at h
  split at h
  · obtain ⟨tok, -, h⟩ := except_bind_eq_ok h
    cases h
    exact .inl ⟨tok, rfl⟩
  · split at h
    · obtain ⟨v, -, h⟩ := except_bind_eq_ok h
      obtain ⟨w, hw, h⟩ := except_bind_eq_ok h
      cases h
      exact .inr (.inl ⟨v, w, rfl, hw⟩)
    · dsimp only at h
      split at h
      next node hnode =>
        subst h
        exact .inr (.inr (found_of_ofFields? hnode))
      next => cases h
    all_goals cases h

/-- A tree that was read has room to be written and read again, and its literals keep their
values. -/
theorem fits_of_ofData {room : Nat} {data : Value} {t : Tree TokenRecord}
    (h : ofData room data = .ok t) :
    2 * t.depth ≤ room ∧ ∀ v ∈ t.literals, v.isPayload = true := by
  induction room using Nat.twoStepInduction generalizing data t with
  | zero => cases h
  | one => cases h
  | more room ih _ =>
    -- a tree whose parts were read in the room that is left
    have hparts : (∀ v, t ≠ literal v) → (∀ part ∈ t.parts, ∃ data, ofData room data = .ok part) →
        2 * t.depth ≤ room + 2 ∧ ∀ v ∈ t.literals, v.isPayload = true := by
      intro hne hfound
      have hfits : ∀ part ∈ t.parts, 2 * part.depth ≤ room ∧
          ∀ v ∈ part.literals, v.isPayload = true := by
        intro part hpart
        obtain ⟨data, hdata⟩ := hfound part hpart
        exact ih hdata
      constructor
      · have hle : t.depth ≤ room / 2 + 1 := by
          refine depth_le_succ_iff.2 fun part hpart => ?_
          have hpart := (hfits part hpart).1
          omega
        omega
      · intro v hv
        obtain ⟨part, hpart, hmem⟩ := exists_mem_parts_of_mem_literals hne hv
        exact (hfits part hpart).2 v hmem
    cases data with
    | absent =>
      cases h
      exact hparts (by simp) (by simp [parts, fields])
    | list items =>
      rw [ofData] at h
      obtain ⟨trees, htrees, h⟩ := except_bind_eq_ok h
      cases h
      refine hparts (by simp) fun part hpart => ?_
      obtain ⟨data, -, hdata⟩ := exists_of_mem_mapM htrees hpart
      exact ⟨data, hdata⟩
    | record entries =>
      rcases ofData_record_eq_ok h with ⟨tok, rfl⟩ | ⟨v, w, rfl, hw⟩ | hfound
      · exact hparts (by simp) (by simp [parts, fields])
      · constructor
        · have hle : (literal w : Tree TokenRecord).depth ≤ 0 + 1 :=
            depth_le_succ_iff.2 (by simp [parts, fields])
          omega
        · intro v hv
          rw [literals.eq_1, List.mem_singleton] at hv
          subst hv
          exact Value.isPayload_of_decode hw
      · refine hparts (by rintro v rfl; exact hfound.isNode rfl) fun part hpart => ?_
        rw [parts_of_fields hfound.isNode] at hpart
        obtain ⟨field, hfield, rfl⟩ := List.mem_map.1 hpart
        exact ⟨_, hfound.fields field hfield⟩
    | _ => cases h

/-! ### Trees of programs -/

/-- The tree of a program comes back from the records of its tokens. -/
theorem ofRecords_map_record (t : Tree) : (t.map Token.record).ofRecords = .ok t := by
  have hall : (t.map Token.record).tokens.all (·.token?.isSome) = true := by
    simp [tokens_map, Token.token?_record]
  rw [ofRecords, if_pos hall, map_map_of_leftInverse]
  intro tok
  rw [Token.token?_record, Option.getD_some]

theorem decode_of_ofData {room : Nat} {data : Value} {t : Tree}
    (h : ofData room data = .ok (t.map Token.record)) : decode room data = .ok t := by
  rw [decode, h]
  exact ofRecords_map_record t

/-- The tree of a program with room for its levels is encoded, and its data are decoded as the same
tree. -/
theorem exists_encode {room : Nat} {t : Tree} (hdepth : 2 * t.depth ≤ room)
    (hliterals : ∀ v ∈ t.literals, v.isPayload = true) :
    ∃ data, t.encode room = .ok data ∧ decode room data = .ok t := by
  rw [← depth_map Token.record] at hdepth
  rw [← literals_map Token.record] at hliterals
  obtain ⟨data, hencode, hdecode⟩ := exists_toData hdepth hliterals
  exact ⟨data, hencode, decode_of_ofData hdecode⟩

/-- A tree that was decoded has room to be encoded and decoded again, and its literals keep their
values. -/
theorem fits_of_decode {room : Nat} {data : Value} {t : Tree} (h : decode room data = .ok t) :
    2 * t.depth ≤ room ∧ ∀ v ∈ t.literals, v.isPayload = true := by
  obtain ⟨raw, hraw, h⟩ := except_bind_eq_ok h
  unfold ofRecords at h
  split at h
  · cases h
    rw [depth_map, literals_map]
    exact fits_of_ofData hraw
  · cases h

/-- Encoding loses nothing. A tree of any classes, with any data in its tokens, with room for its
levels and with literals that carry a value of the language, nothing or a list, is encoded, and its
data are read as the same tree. So any tree that was read comes back from its own data. The same
holds of the trees of programs. -/
theorem decode_encode_lossless (room : Nat) :
    (∀ t : Tree TokenRecord, 2 * t.depth ≤ room → (∀ v ∈ t.literals, v.isPayload = true) →
      ∃ data, t.toData room = .ok data ∧ ofData room data = .ok t) ∧
    (∀ data t, ofData room data = .ok t →
      ∃ data', t.toData room = .ok data' ∧ ofData room data' = .ok t) ∧
    (∀ t : Tree, 2 * t.depth ≤ room → (∀ v ∈ t.literals, v.isPayload = true) →
      ∃ data, t.encode room = .ok data ∧ decode room data = .ok t) ∧
    ∀ data t, decode room data = .ok t →
      ∃ data', t.encode room = .ok data' ∧ decode room data' = .ok t := by
  refine ⟨fun t => exists_toData, fun data t h => ?_, fun t => exists_encode, fun data t h => ?_⟩
  · obtain ⟨hdepth, hliterals⟩ := fits_of_ofData h
    exact exists_toData hdepth hliterals
  · obtain ⟨hdepth, hliterals⟩ := fits_of_decode h
    exact exists_encode hdepth hliterals

/-- A return statement with a negative zero, whose token has nothing for a line. -/
theorem decode_encode_lossless_negative_zero :
    ∃ data, toData 4 (returnStmt (token ⟨.kwReturn, .string "return", .integer 1, .absent⟩)
        (literal (.number (ofMagnitude true 0)))) = .ok data ∧
      ofData 4 data = .ok (returnStmt (token ⟨.kwReturn, .string "return", .integer 1, .absent⟩)
        (literal (.number (ofMagnitude true 0)))) := by
  have hdepth : (returnStmt (token ⟨.kwReturn, .string "return", .integer 1, .absent⟩)
      (literal (.number (ofMagnitude true 0))) : Tree TokenRecord).depth ≤ 0 + 1 + 1 := by
    refine depth_le_succ_iff.2 fun part hpart => depth_le_succ_iff.2 ?_
    simp only [parts, fields, List.map_cons, List.map_nil, List.mem_cons, List.not_mem_nil,
      or_false] at hpart
    rcases hpart with rfl | rfl <;> simp [parts, fields]
  refine (decode_encode_lossless 4).1 _ (by omega) ?_
  simp [literals, parts, fields, Value.isPayload]

end Tree

end LoxTree
