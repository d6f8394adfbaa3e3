import Doctest.Proofs.Compiler.Records
import Doctest.Proofs.Json.Pretty
import Doctest.Proofs.Text.Lines

/-! The messages of a compiler, printed among other lines. However a message is written in JSON, it is read back as
it was. -/
namespace Doctest

namespace CompilerMessage

open JsonValue (ofString ofNat ofFields present)

/-! Messages as values, within a number of levels of objects and arrays. -/

def WrittenText (s : String) (v : JsonValue) : Prop :=
  v = ofString s

/-- What is absent is written as null. -/
inductive WrittenOption {α : Type} (P : α → JsonValue → Prop) : Option α → JsonValue → Prop
  | none : WrittenOption P none .null
  | some {a : α} {v : JsonValue} : P a v → WrittenOption P (some a) v

def WrittenCode (levels : Nat) (code : String) (v : JsonValue) : Prop :=
  0 < levels ∧ ∃ fields, v = .object fields ∧ IsRecord ["code"] fields ∧
    Field fields "code" False (WrittenText code)

/-- A line number has 32 bits. -/
def WrittenSpan (levels : Nat) (s : CompilerSpan) (v : JsonValue) : Prop :=
  0 < levels ∧ s.line < UInt32.size ∧ ∃ fields, v = .object fields ∧
    IsRecord ["line_start", "is_primary", "label"] fields ∧
    Field fields "line_start" False (· = ofNat s.line) ∧
    Field fields "is_primary" (s.isPrimary = false) (· = .bool s.isPrimary) ∧
    Field fields "label" (s.label = none) (WrittenOption WrittenText s.label)

/-- An array is one level around those of its items. -/
def WrittenItems {α : Type} (levels : Nat) (P : α → JsonValue → Prop) (items : List α) (v : JsonValue) : Prop :=
  0 < levels ∧ ∃ values, v = .array values ∧ List.Forall₂ P items values

/-- The fields of a message stand in any order and among unknown ones. -/
def WrittenRecord (levels : Nat) (P : CompilerMessage → JsonValue → Prop) (m : CompilerMessage) (v : JsonValue) :
    Prop :=
  ∃ fields, v = .object fields ∧
    IsRecord ["message", "level", "code", "spans", "children", "rendered"] fields ∧
    Field fields "message" False (WrittenText m.message) ∧
    Field fields "level" False (WrittenText m.level) ∧
    Field fields "code" (m.code = none) (WrittenOption (WrittenCode levels) m.code) ∧
    Field fields "spans" (m.spans = []) (WrittenItems levels (WrittenSpan (levels - 1)) m.spans) ∧
    Field fields "children" (m.children = []) (WrittenItems levels P m.children) ∧
    Field fields "rendered" (m.rendered = none) (WrittenOption WrittenText m.rendered)

/-- A child is two levels further inside, below the array of all children. -/
def Written : Nat → CompilerMessage → JsonValue → Prop
  | 0, _, _ => False
  | 1, m, v => WrittenRecord 0 (fun _ _ => False) m v
  | levels + 2, m, v => WrittenRecord (levels + 1) (Written levels) m v

/-! Reading. -/

theorem text?_of_written {s : String} {v : JsonValue} (h : WrittenText s v) : text? v = some s := by
  rw [h]
  rfl

theorem nullable?_of_written {α : Type} {P : α → JsonValue → Prop} {read : JsonValue → Option α}
    (hnull : read .null = none) (hread : ∀ a v, P a v → read v = some a) {o : Option α} {v : JsonValue}
    (h : WrittenOption P o v) : nullable? read v = some o := by
  cases h with
  | none => rfl
  | some hv =>
    have hsome := hread _ _ hv
    unfold nullable?
    split
    · rw [hnull] at hsome
      contradiction
    · rw [hsome, Option.map_some]

theorem items?_of_written {α : Type} {levels : Nat} {P : α → JsonValue → Prop}
    {read : Nat → JsonValue → Option α} (hread : ∀ a v, P a v → read (levels - 1) v = some a) {items : List α}
    {v : JsonValue} (h : WrittenItems levels P items v) : items? levels read v = some items := by
  obtain ⟨hlevels, values, rfl, hitems⟩ := h
  obtain ⟨levels, rfl⟩ := Nat.exists_eq_add_of_lt hlevels
  rw [Nat.add_sub_cancel] at hread
  exact mapM_eq_some_iff.mpr (hitems.flip.imp fun v a hv => hread a v hv)

theorem code?_of_written {levels : Nat} {code : String} {v : JsonValue} (h : WrittenCode levels code v) :
    code? levels v = some code := by
  obtain ⟨hlevels, fields, rfl, hrecord, hcode⟩ := h
  obtain ⟨levels, rfl⟩ := Nat.exists_eq_add_of_lt hlevels
  rw [code?, record?, hrecord.fields?_eq, Option.bind_eq_bind, Option.bind_some]
  exact hcode.fieldOr_required hrecord (by decide) fun _ => text?_of_written

theorem line?_of_written {n : Nat} (hn : n < UInt32.size) {v : JsonValue} (h : v = ofNat n) : line? v = some n := by
  rw [h]
  exact if_pos hn

theorem bool?_of_written {b : Bool} {v : JsonValue} (h : v = .bool b) : bool? v = some b := by
  rw [h]
  rfl

theorem textOption_of_written {o : Option String} {v : JsonValue} (h : WrittenOption WrittenText o v) :
    nullable? text? v = some o := by
  refine nullable?_of_written rfl ?_ h
  exact fun _ _ => text?_of_written

theorem span?_of_written {levels : Nat} {s : CompilerSpan} {v : JsonValue} (h : WrittenSpan levels s v) :
    span? levels v = some s := by
  obtain ⟨hlevels, hsize, fields, rfl, hrecord, hline, hprimary, hlabel⟩ := h
  obtain ⟨levels, rfl⟩ := Nat.exists_eq_add_of_lt hlevels
  have hline := hline.fieldOr_required hrecord (by decide) fun _ => line?_of_written hsize
  have hprimary := hprimary.fieldOr_eq hrecord (by decide) (fun _ => bool?_of_written)
    fun h => congrArg some h.symm
  have hlabel := hlabel.fieldOr_eq hrecord (by decide) (fun _ => textOption_of_written) fun h => congrArg some h.symm
  simp only [span?, record?, hrecord.fields?_eq, hline, hprimary, hlabel, Option.bind_eq_bind, Option.bind_some]
  rfl

theorem ofRecord?_of_written {levels : Nat} {P : CompilerMessage → JsonValue → Prop}
    {read : Nat → JsonValue → Option CompilerMessage} (hread : ∀ m v, P m v → read (levels - 1) v = some m)
    {m : CompilerMessage} {v : JsonValue} (h : WrittenRecord levels P m v) :
    ofRecord? levels (items? levels read) v = some m := by
  obtain ⟨fields, rfl, hrecord, hmessage, hlevel, hcode, hspans, hchildren, hrendered⟩ := h
  have hnull : code? levels .null = none := by
    cases levels <;> rfl
  have hmessage := hmessage.fieldOr_required hrecord (by decide) fun _ => text?_of_written
  have hlevel := hlevel.fieldOr_required hrecord (by decide) fun _ => text?_of_written
  have hcode := hcode.fieldOr_eq hrecord (by decide)
    (fun _ => nullable?_of_written hnull fun _ _ => code?_of_written) fun h => congrArg some h.symm
  have hspans := hspans.fieldOr_eq hrecord (by decide)
    (fun _ => items?_of_written fun _ _ => span?_of_written) fun h => congrArg some h.symm
  have hchildren := hchildren.fieldOr_eq hrecord (by decide)
    (fun _ => items?_of_written hread) fun h => congrArg some h.symm
  have hrendered := hrendered.fieldOr_eq hrecord (by decide) (fun _ => textOption_of_written)
    fun h => congrArg some h.symm
  simp only [ofRecord?, record?, hrecord.fields?_eq, hmessage, hlevel, hcode, hspans, hchildren, hrendered,
    Option.bind_eq_bind, Option.bind_some]
  -- Messages hold lists of messages, so that one is its own fields is not by definition.
  cases m
  rfl

/-- A message is read from each value that it is written as. -/
theorem ofValue?_of_written : ∀ (levels : Nat) (m : CompilerMessage) (v : JsonValue), Written levels m v →
    ofValue? levels v = some m
  | 0, _, _, h => h.elim
  | 1, _, _, h => ofRecord?_of_written (fun _ _ h => h.elim) h
  | levels + 2, _, _, h => ofRecord?_of_written (ofValue?_of_written levels) h

/-! A message that is not too deep can be written. -/

/-- The message is at most so many levels deep, and its lines have 32 bits. -/
def Fits : Nat → CompilerMessage → Prop
  | 0, _ => False
  | 1, m => m.code = none ∧ m.spans = [] ∧ m.children = []
  | levels + 2, m => (m.spans ≠ [] → 0 < levels) ∧ (∀ s ∈ m.spans, s.line < UInt32.size) ∧
      ∀ child ∈ m.children, Fits levels child

theorem exists_writtenOption (o : Option String) : ∃ v, WrittenOption WrittenText o v ∧ v.IsNatural := by
  cases o with
  | none => exact ⟨.null, .none, .null⟩
  | some s => exact ⟨ofString s, .some rfl, .string (some s)⟩

theorem isNatural_present {keys : List String} {values : List (Option JsonValue)}
    (h : ∀ value ∈ values, ∀ v, value = some v → v.IsNatural) : (ofFields (present keys values)).IsNatural := by
  refine JsonValue.isNatural_ofFields fun f hf => ?_
  exact h _ (List.of_mem_zip (JsonValue.mem_present.mp hf)).2 _ rfl

theorem exists_writtenItems {α : Type} {levels : Nat} (hlevels : 0 < levels) {P : α → JsonValue → Prop}
    {items : List α} (h : ∀ a ∈ items, ∃ v, P a v ∧ v.IsNatural) :
    ∃ v, WrittenItems levels P items v ∧ v.IsNatural := by
  obtain ⟨values, hvalues⟩ := exists_forall₂ h
  refine ⟨.array values, ⟨hlevels, values, rfl, hvalues.imp fun _ _ h => h.1⟩, .array ?_⟩
  exact forall_mem_of_forall₂ (fun _ _ h => h.2) hvalues

theorem exists_writtenCode {levels : Nat} {code : Option String} (hcode : code ≠ none → 0 < levels) :
    ∃ v, WrittenOption (WrittenCode levels) code v ∧ v.IsNatural := by
  cases code with
  | none => exact ⟨.null, .none, .null⟩
  | some s =>
    refine ⟨ofFields (present ["code"] [some (ofString s)]), .some ⟨hcode (by simp), _, rfl,
      isRecord_present (by decide) _ _, .present (mem_map_present.mpr (by simp)) rfl⟩, isNatural_present ?_⟩
    simp only [List.forall_mem_singleton]
    rintro v hv
    obtain rfl := Option.some.inj hv
    exact .string (some s)

theorem exists_writtenSpan {levels : Nat} (hlevels : 0 < levels) {s : CompilerSpan} (hs : s.line < UInt32.size) :
    ∃ v, WrittenSpan levels s v ∧ v.IsNatural := by
  obtain ⟨label, hlabel, hnatural⟩ := exists_writtenOption s.label
  refine ⟨ofFields (present ["line_start", "is_primary", "label"]
    [some (ofNat s.line), some (.bool s.isPrimary), some label]), ⟨hlevels, hs, _, rfl,
      isRecord_present (by decide) _ _, .present (mem_map_present.mpr (by simp)) rfl,
      .present (mem_map_present.mpr (by simp)) rfl, .present (mem_map_present.mpr (by simp)) hlabel⟩,
    isNatural_present ?_⟩
  simp only [List.forall_mem_cons, List.not_mem_nil, false_imp_iff, implies_true, and_true, Option.some.injEq,
    forall_eq']
  exact ⟨.number s.line, .bool s.isPrimary, hnatural⟩

/-- An empty list is left out. -/
theorem exists_itemsField {α : Type} {levels : Nat} {P : α → JsonValue → Prop} {items : List α}
    (hlevels : items ≠ [] → 0 < levels) (h : ∀ a ∈ items, ∃ v, P a v ∧ v.IsNatural) :
    ∃ value : Option JsonValue, (∀ v, value = some v → WrittenItems levels P items v) ∧
      (∀ v, value = some v → v.IsNatural) ∧ (value = none → items = []) := by
  by_cases hitems : items = []
  · exact ⟨none, nofun, nofun, fun _ => hitems⟩
  · obtain ⟨v, hv, hnatural⟩ := exists_writtenItems (hlevels hitems) h
    refine ⟨some v, ?_, ?_, nofun⟩
    · rintro w hw
      rwa [← Option.some.inj hw]
    · rintro w hw
      rwa [← Option.some.inj hw]

theorem exists_writtenRecord {levels : Nat} {P : CompilerMessage → JsonValue → Prop} {m : CompilerMessage}
    (hcode : m.code ≠ none → 0 < levels) (hspans : m.spans ≠ [] → 1 < levels)
    (hlines : ∀ s ∈ m.spans, s.line < UInt32.size) (hlevels : m.children ≠ [] → 0 < levels)
    (hchildren : ∀ child ∈ m.children, ∃ v, P child v ∧ v.IsNatural) :
    ∃ v, WrittenRecord levels P m v ∧ v.IsNatural := by
  obtain ⟨code, hcode, hcodeNatural⟩ := exists_writtenCode hcode
  obtain ⟨spans, hspans, hspansNatural, hspansNone⟩ : ∃ value : Option JsonValue,
      (∀ v, value = some v → WrittenItems levels (WrittenSpan (levels - 1)) m.spans v) ∧
        (∀ v, value = some v → v.IsNatural) ∧ (value = none → m.spans = []) := by
    refine exists_itemsField (fun h => by have := hspans h; omega) fun s hs => ?_
    have hlevels := hspans (List.ne_nil_of_mem hs)
    exact exists_writtenSpan (by omega) (hlines s hs)
  obtain ⟨children, hchildren, hchildrenNatural, hchildrenNone⟩ := exists_itemsField hlevels hchildren
  obtain ⟨rendered, hrendered, hrenderedNatural⟩ := exists_writtenOption m.rendered
  have hnodup : ["message", "level", "code", "spans", "children", "rendered"].Nodup := by decide
  refine ⟨ofFields (present ["message", "level", "code", "spans", "children", "rendered"]
    [some (ofString m.message), some (ofString m.level), some code, spans, children, some rendered]),
    ⟨_, rfl, isRecord_present hnodup _ _, .present (mem_map_present.mpr (by simp)) rfl,
      .present (mem_map_present.mpr (by simp)) rfl, .present (mem_map_present.mpr (by simp)) hcode,
      field_present hnodup (by simp) (by simp) hspans hspansNone,
      field_present hnodup (by simp) (by simp) hchildren hchildrenNone,
      .present (mem_map_present.mpr (by simp)) hrendered⟩, isNatural_present ?_⟩
  simp only [List.forall_mem_cons, List.not_mem_nil, false_imp_iff, implies_true, and_true, Option.some.injEq,
    forall_eq']
  exact ⟨.string (some m.message), .string (some m.level), hcodeNatural, hspansNatural, hchildrenNatural,
    hrenderedNatural⟩

theorem Fits.exists_written : ∀ {levels : Nat} {m : CompilerMessage}, Fits levels m →
    ∃ v, Written levels m v ∧ v.IsNatural
  | 0, _, h => h.elim
  | 1, m, ⟨hcode, hspans, hchildren⟩ => by
    refine exists_writtenRecord (fun h => absurd hcode h) (fun h => absurd hspans h) ?_ (fun h => absurd hchildren h) ?_
    · rw [hspans]
      exact fun s hs => absurd hs List.not_mem_nil
    · rw [hchildren]
      exact fun child hchild => absurd hchild List.not_mem_nil
  | levels + 2, m, ⟨hspans, hlines, hchildren⟩ => by
    refine exists_writtenRecord (fun _ => Nat.succ_pos levels) (fun h => Nat.succ_lt_succ (hspans h)) hlines
      (fun _ => Nat.succ_pos levels) fun child hchild => ?_
    exact (hchildren child hchild).exists_written

theorem forall_of_itemsField {α : Type} {fields : List (Option String × JsonValue)} {key : String} {levels : Nat}
    {P : α → JsonValue → Prop} {items : List α} (h : Field fields key (items = []) (WrittenItems levels P items)) :
    (items ≠ [] → 0 < levels) ∧ ∀ a ∈ items, ∃ v, P a v := by
  cases h with
  | present _ hv =>
    obtain ⟨hlevels, values, -, hitems⟩ := hv
    exact ⟨fun _ => hlevels, forall_mem_of_forall₂ (fun v a hav => ⟨v, hav⟩) hitems.flip⟩
  | leftOut hnil _ =>
    rw [hnil]
    exact ⟨fun hne => absurd rfl hne, fun a ha => absurd ha List.not_mem_nil⟩

theorem Written.fits : ∀ {levels : Nat} {m : CompilerMessage} {v : JsonValue}, Written levels m v → Fits levels m
  | 0, _, _, h => h.elim
  | 1, m, _, ⟨fields, _, _, _, _, hcode, hspans, hchildren, _⟩ => by
    refine ⟨?_, ?_, ?_⟩
    · cases hcode with
      | leftOut hnone _ => exact hnone
      | @present v _ hv =>
        cases hcode : m.code with
        | none => rfl
        | some code =>
          rw [hcode] at hv
          cases hv with
          | some h => exact absurd h.1 (Nat.lt_irrefl 0)
    · exact Classical.not_not.mp fun hne => absurd ((forall_of_itemsField hspans).1 hne) (Nat.lt_irrefl 0)
    · exact Classical.not_not.mp fun hne => absurd ((forall_of_itemsField hchildren).1 hne) (Nat.lt_irrefl 0)
  | levels + 2, m, _, ⟨fields, _, _, _, _, _, hspans, hchildren, _⟩ => by
    have hspan := (forall_of_itemsField hspans).2
    refine ⟨fun hne => ?_, fun s hs => ?_, fun child hchild => ?_⟩
    · obtain ⟨s, hs⟩ := List.exists_mem_of_ne_nil _ hne
      obtain ⟨v, hv⟩ := hspan s hs
      exact hv.1
    · obtain ⟨v, hv⟩ := hspan s hs
      exact hv.2.1
    · obtain ⟨v, hv⟩ := (forall_of_itemsField hchildren).2 child hchild
      exact hv.fits

/-- A message can be written within so many levels if it is no deeper. -/
theorem exists_written_iff {levels : Nat} {m : CompilerMessage} : (∃ v, Written levels m v) ↔ Fits levels m := by
  constructor
  · rintro ⟨v, hv⟩
    exact hv.fits
  · intro h
    obtain ⟨v, hv, -⟩ := h.exists_written
    exact ⟨v, hv⟩

/-! Lines that hold a message. -/

theorem Written.exists_fields : ∀ {levels : Nat} {m : CompilerMessage} {v : JsonValue}, Written levels m v →
    ∃ fields, v = .object fields
  | 0, _, _, h => h.elim
  | 1, _, _, ⟨fields, hv, _⟩ => ⟨fields, hv⟩
  | _ + 2, _, _, ⟨fields, hv, _⟩ => ⟨fields, hv⟩

theorem isBlank_of_isBlank {c : Char} (h : JsonToken.isBlank c) : Text.isBlank c := by
  have hall : ∀ d ∈ [' ', '\t', '\n', '\r'], Text.isBlank d := List.all_iff_forall_prop.mp (by decide)
  exact hall c (by simpa [JsonToken.isBlank, or_assoc] using h)

/-- A line with the text of a message is the message. -/
theorem ofLine?_of_written {m : CompilerMessage} {v : JsonValue} {line : List Char} (hv : Written maxLevels m v)
    (h : JsonToken.Spells v.tokens line) : ofLine? line = some m := by
  obtain ⟨fields, rfl⟩ := hv.exists_fields
  have hread := JsonValue.read?_of_spells (v := .object fields) trivial h
  have htrim : ∃ rest, Text.trimStart line = '\x7b' :: rest := by
    rw [JsonValue.tokens] at h
    cases h with
    | @cons blanks text rest _ _ hblanks htoken _ =>
      cases htoken
      refine ⟨rest, ?_⟩
      rw [Text.trimStart, List.dropWhile_append_of_pos fun c hc => isBlank_of_isBlank (hblanks c hc)]
      rfl
  obtain ⟨rest, hrest⟩ := htrim
  rw [ofLine?, hrest, hread, Option.bind_some]
  exact ofValue?_of_written maxLevels m _ hv

end CompilerMessage

/-- A carriage return at the end of a line is a blank like any other. -/
theorem JsonToken.Spells.dropReturn {tokens : List JsonToken} {text : List Char} (h : Spells tokens text) :
    Spells tokens (Text.dropReturn text) := by
  induction h with
  | @nil blanks hblanks =>
    refine .nil fun c hc => hblanks c ?_
    unfold Text.dropReturn at hc
    split at hc
    · exact List.dropLast_subset blanks hc
    · exact hc
  | @cons blanks text rest token tokens hblanks htoken hrest ih =>
    -- If the last token ends the text, its last character is no control character.
    by_cases hnil : rest = []
    · have hkeep : Text.dropReturn (blanks ++ (text ++ rest)) = blanks ++ (text ++ rest) := by
        obtain ⟨c, cs, htext, -⟩ := htoken.exists_cons
        have hne : text ≠ [] := htext ▸ List.cons_ne_nil c cs
        refine if_neg fun hlast => ?_
        rw [hnil, List.append_nil, List.getLast?_append_of_ne_nil _ hne] at hlast
        exact absurd (htoken.le_toNat _ (List.mem_of_getLast? hlast)) (by decide)
      rw [hkeep]
      exact .cons hblanks htoken hrest
    · rw [← List.append_assoc, Text.dropReturn_append _ hnil, List.append_assoc]
      exact .cons hblanks htoken ih

/-- A message of a compiler, or another line that it prints. -/
inductive CompilerEntry
  | message (m : CompilerMessage)
  | line (text : List Char)

namespace CompilerEntry

/-- A line that does not look like a message, and that ends only where its newline comes. -/
def IsPlain (text : List Char) : Prop :=
  '\n' ∉ text ∧ text.getLast? ≠ some '\r' ∧ (Text.trimStart text).head? ≠ some '\x7b'

def IsPrintable : CompilerEntry → Prop
  | message m => m.Fits CompilerMessage.maxLevels
  | line text => IsPlain text

/-- A message may be printed as any text of a value that it is written as, on one line. -/
inductive Printed : CompilerEntry → List Char → Prop
  | message {m : CompilerMessage} {v : JsonValue} {text : List Char} : m.Written CompilerMessage.maxLevels v →
    JsonToken.Spells v.tokens text → '\n' ∉ text → Printed (.message m) text
  | line {text : List Char} : IsPlain text → Printed (.line text) text

def message? : CompilerEntry → Option CompilerMessage
  | message m => some m
  | line _ => none

def plainText : CompilerEntry → List Char
  | message _ => []
  | line text => text ++ ['\n']

theorem IsPrintable.exists_printed {e : CompilerEntry} (h : e.IsPrintable) : ∃ text, Printed e text := by
  cases e with
  | message m =>
    obtain ⟨v, hv, hnatural⟩ := CompilerMessage.Fits.exists_written h
    obtain ⟨text, htext, hcodes⟩ := (JsonValue.spells_indented v hnatural 0).exists_line
    exact ⟨text, .message hv htext fun hmem => absurd (hcodes _ hmem) (by decide)⟩
  | line text => exact ⟨text, .line h⟩

theorem Printed.newline_notMem {e : CompilerEntry} {text : List Char} (h : Printed e text) : '\n' ∉ text := by
  cases h with
  | message _ _ hline => exact hline
  | line hplain => exact hplain.1

end CompilerEntry

namespace CompilerOutput

open CompilerEntry (Printed message? plainText)

theorem ofLines_cons_message {line : List Char} {m : CompilerMessage} (h : CompilerMessage.ofLine? line = some m)
    (rest : List (List Char)) : ofLines (line :: rest) =
      ⟨m :: (ofLines rest).messages, (ofLines rest).other⟩ := by
  rw [ofLines, h]

theorem ofLines_cons_other {line : List Char} (h : CompilerMessage.ofLine? line = none)
    (rest : List (List Char)) : ofLines (line :: rest) =
      ⟨(ofLines rest).messages, String.ofList line ++ "\n" ++ (ofLines rest).other⟩ := by
  rw [ofLines, h]

theorem ofLine?_of_isPlain {text : List Char} (h : CompilerEntry.IsPlain text) :
    CompilerMessage.ofLine? text = none := by
  unfold CompilerMessage.ofLine?
  split
  · next hstart =>
    rw [CompilerEntry.IsPlain, hstart] at h
    exact absurd rfl h.2.2
  · rfl

theorem ofLines_printed {entries : List CompilerEntry} {texts : List (List Char)}
    (h : List.Forall₂ Printed entries texts) : ofLines (texts.map Text.dropReturn) =
      ⟨entries.filterMap message?, String.ofList (entries.flatMap plainText)⟩ := by
  induction h with
  | nil => rfl
  | @cons e text entries texts he _ ih =>
    rw [List.map_cons]
    cases he with
    | message hv htext _ =>
      rw [ofLines_cons_message (CompilerMessage.ofLine?_of_written hv htext.dropReturn), ih]
      rfl
    | line hplain =>
      have hreturn : Text.dropReturn text = text := if_neg hplain.2.1
      rw [hreturn, ofLines_cons_other (ofLine?_of_isPlain hplain), ih]
      have htext : String.ofList text ++ "\n" ++ String.ofList (entries.flatMap plainText) =
          String.ofList ((CompilerEntry.line text :: entries).flatMap plainText) := by
        rw [← String.toList_inj, String.toList_append, String.toList_append]
        simp [plainText]
      rw [htext]
      rfl

/-- Printable messages and lines can be printed, and however they are, the messages are found in their order and
the other lines are kept. -/
theorem ofString_printed {entries : List CompilerEntry} (h : ∀ e ∈ entries, e.IsPrintable) :
    (∃ texts, List.Forall₂ Printed entries texts) ∧
      ∀ texts, List.Forall₂ Printed entries texts →
        ofString (String.ofList (texts.flatMap (· ++ ['\n']))) =
          ⟨entries.filterMap message?, String.ofList (entries.flatMap plainText)⟩ := by
  constructor
  · exact exists_forall₂ fun e he => (h e he).exists_printed
  · intro texts htexts
    have hlines : ∀ text ∈ texts, '\n' ∉ text :=
      forall_mem_of_forall₂ (fun _ _ h => CompilerEntry.Printed.newline_notMem h) htexts
    rw [ofString, String.toList_ofList, Text.lines_flatMap_newline hlines]
    exact ofLines_printed htexts

open JsonToken (Spelled) in
theorem ofString_printed_among_lines :
    let m : CompilerMessage := ⟨"no \"x\"", "error", none, [], [], none⟩
    ofString "\x7b\"level\": \"error\",\"spare\": [],\"message\": \"no \\\"x\\\"\"\x7d\nlinking failed\n" =
      ⟨[m], "linking failed\n"⟩ := by
  intro m
  have hplain : CompilerEntry.IsPlain "linking failed".toList := ⟨by decide, by decide, by decide⟩
  have hfits : m.Fits CompilerMessage.maxLevels := ⟨fun h => absurd rfl h, nofun, nofun⟩
  have hprintable : ∀ e ∈ [CompilerEntry.message m, .line "linking failed".toList], e.IsPrintable :=
    List.forall_mem_cons.mpr ⟨hfits, List.forall_mem_cons.mpr ⟨hplain, nofun⟩⟩
  have hwritten : m.Written CompilerMessage.maxLevels
      (.object [(some "level", .ofString "error"), (some "spare", .array []),
        (some "message", .ofString "no \"x\"")]) :=
    ⟨_, rfl, ⟨by simp, by decide⟩, .present (v := .ofString "no \"x\"") (by simp) rfl,
      .present (v := .ofString "error") (by simp) rfl, .leftOut rfl (by simp), .leftOut rfl (by simp),
      .leftOut rfl (by simp), .leftOut rfl (by simp)⟩
  have hend := JsonValue.spells_key (some "message")
    ((JsonValue.spelled_quoteText (some "no \"x\"")).spells_cons Spelled.closeObject.spells)
  have hspare := JsonValue.spells_key (some "spare")
    (Spelled.openArray.spells_cons (Spelled.closeArray.spells_cons (Spelled.comma.spells_cons hend)))
  have hspells := Spelled.openObject.spells_cons (JsonValue.spells_key (some "level")
    ((JsonValue.spelled_quoteText (some "error")).spells_cons (Spelled.comma.spells_cons hspare)))
  have hread := (ofString_printed hprintable).2 _
    (.cons (.message hwritten hspells (by decide)) (.cons (.line hplain) .nil))
  refine (congrArg ofString ?_).trans (hread.trans (congrArg (CompilerOutput.mk [m]) ?_))
  · decide +kernel
  · decide +kernel

end CompilerOutput

end Doctest
