import Doctest.Diagnostic.Report
import Doctest.Proofs.Json.Fields
import Doctest.Proofs.Json.Pretty

/-! Reports in JSON. The text of a report is read back as its value, and the value tells the diagnostics with
all their fields, present or absent, so different diagnostics have different reports. -/
namespace Doctest

theorem Bytes.eq_ofString {bs : Bytes} {s : String} (h : bs.toString? = some s) : bs = ofString s := by
  unfold toString? String.fromUTF8? at h
  split at h
  · obtain rfl := Option.some.inj h
    rfl
  · contradiction

/-! Functions that do not have a value everywhere. -/

/-- No value belongs to two arguments. -/
def Separates {α β : Type} (f : α → Option β) : Prop :=
  ∀ ⦃a b v⦄, f a = some v → f b = some v → a = b

section

variable {α β : Type} {f : α → Option β}

theorem Separates.option_mapM (hf : Separates f) : Separates (Option.mapM f) := by
  intro x y v hx hy
  match x, y with
  | none, none => rfl
  | some a, none =>
    obtain ⟨w, -, rfl⟩ := Option.map_eq_some_iff.mp hx
    injection Option.some.inj hy
  | none, some b =>
    obtain ⟨w, -, rfl⟩ := Option.map_eq_some_iff.mp hy
    injection Option.some.inj hx
  | some a, some b =>
    obtain ⟨w, ha, rfl⟩ := Option.map_eq_some_iff.mp hx
    obtain ⟨w', hb, hw⟩ := Option.map_eq_some_iff.mp hy
    obtain rfl := Option.some.inj hw
    rw [hf ha hb]

theorem Separates.list_mapM (hf : Separates f) : Separates (List.mapM f) := by
  intro as bs vs has hbs
  rw [mapM_eq_some_iff] at has hbs
  induction has generalizing bs with
  | nil =>
    cases hbs
    rfl
  | cons ha _ ih =>
    cases hbs with
    | cons hb hbs => rw [hf ha hb, ih hbs]

end

theorem Severity.display_injective : Function.Injective display := by
  intro s t h
  cases s <;> cases t <;> first | rfl | exact absurd h (by decide)

theorem Element.Kind.reportName_injective : Function.Injective reportName := by
  intro k l h
  cases k <;> cases l <;> first | rfl | exact absurd h (by decide)

/-! The fields of a diagnostic, as a list of names and a list of what stands under them. -/

namespace Diagnostic

open JsonValue (ofString ofNat ofFields present ofString_injective ofNat_injective ofFields_injective
  isNatural_ofFields)

def reportKeys : List String :=
  ["severity", "code", "category", "title", "message", "element", "location", "excerpt", "notes",
    "help", "output"]

/-- What stands under each of the names, with the location as it is reported. -/
def members (d : Diagnostic) (location : Option JsonValue) : List (Option JsonValue) :=
  let code := d.code.bind Code.ofString?
  [some (ofString d.severity.display), d.code.map ofString,
    code.map fun c => ofString c.category.display, code.map fun c => ofString c.title,
    some (ofString d.message), d.element.map elementValue, location, d.excerpt.map excerptValue,
    if d.notes.isEmpty then none else some (ofStrings d.notes), d.help.map ofString, d.output.map ofString]

theorem reportValue?_eq (d : Diagnostic) :
    d.reportValue? =
      (d.location.mapM locationValue?).map fun location => ofFields (present reportKeys (d.members location)) := by
  have hnotes : (if d.notes.isEmpty then [] else [("notes", ofStrings d.notes)]) =
      field "notes" (if d.notes.isEmpty then none else some (ofStrings d.notes)) := by
    split <;> rfl
  unfold reportValue?
  rw [hnotes]
  cases hlocation : d.location.mapM locationValue? with
  | none => rfl
  | some location => simp [present, reportKeys, members, field]

theorem ofStrings_injective : Function.Injective ofStrings := by
  intro texts texts' h
  exact List.map_injective_iff.mpr ofString_injective (JsonValue.array.inj h)

theorem elementValue_injective : Function.Injective elementValue := by
  intro e f h
  have hfields := ofFields_injective h
  simp only [List.cons.injEq, Prod.mk.injEq, true_and, and_true] at hfields
  have hkind := Element.Kind.reportName_injective (ofString_injective hfields.1)
  have hpath := ofString_injective hfields.2
  cases e
  cases f
  exact congrArg₂ ElementRef.mk hkind hpath

theorem excerptValue_injective : Function.Injective excerptValue := by
  intro e f h
  have hfields := ofFields_injective h
  simp only [List.cons.injEq, Prod.mk.injEq, true_and, and_true] at hfields
  have hfirst := ofNat_injective hfields.1
  have hlines := ofStrings_injective hfields.2
  cases e
  cases f
  exact congrArg₂ Excerpt.mk hfirst hlines

/-- A list of notes that is left out is empty. -/
theorem notes_injective {ns ms : List String}
    (h : (if ns.isEmpty then none else some (ofStrings ns)) =
      if ms.isEmpty then none else some (ofStrings ms)) : ns = ms := by
  cases ns with
  | nil =>
    cases ms with
    | nil => rfl
    | cons m ms => contradiction
  | cons n ns =>
    cases ms with
    | nil => contradiction
    | cons m ms => exact ofStrings_injective (Option.some.inj h)

/-- The value of the file of a location. -/
def fileValue? (file : Option Path) : Option JsonValue :=
  match file with
  | some file => file.bytes.toString?.map ofString
  | none => some .null

theorem fileValue?_separates : Separates fileValue? := by
  intro file file' v h h'
  match file, file' with
  | none, none => rfl
  | some file, none =>
    obtain rfl := Option.some.inj h'
    obtain ⟨s, -, hs⟩ := Option.map_eq_some_iff.mp h
    contradiction
  | none, some file' =>
    obtain rfl := Option.some.inj h
    obtain ⟨s, -, hs⟩ := Option.map_eq_some_iff.mp h'
    contradiction
  | some ⟨bytes⟩, some ⟨bytes'⟩ =>
    obtain ⟨s, hs, rfl⟩ := Option.map_eq_some_iff.mp h
    obtain ⟨t, ht, hst⟩ := Option.map_eq_some_iff.mp h'
    obtain rfl := ofString_injective hst
    have hbytes := (Bytes.eq_ofString hs).trans (Bytes.eq_ofString ht).symm
    exact congrArg (fun bs => some (Path.mk bs)) hbytes

theorem locationValue?_eq (l : Location) :
    locationValue? l = (fileValue? l.file).map fun file => ofFields [("file", file), ("line", ofNat l.line)] := by
  obtain ⟨file, line⟩ := l
  cases file with
  | none => rfl
  | some file =>
    unfold locationValue? fileValue?
    cases hfile : file.bytes.toString? with
    | none => simp [hfile]
    | some s => simp [hfile]

theorem locationValue?_separates : Separates locationValue? := by
  intro l m v hl hm
  rw [locationValue?_eq] at hl hm
  obtain ⟨file, hfile, rfl⟩ := Option.map_eq_some_iff.mp hl
  obtain ⟨file', hfile', hv⟩ := Option.map_eq_some_iff.mp hm
  have hfields := ofFields_injective hv
  simp only [List.cons.injEq, Prod.mk.injEq, true_and, and_true] at hfields
  obtain ⟨rfl, hline⟩ := hfields
  have hfiles := fileValue?_separates hfile hfile'
  have hlines := ofNat_injective hline.symm
  cases l
  cases m
  exact congrArg₂ Location.mk hfiles hlines

theorem reportValue?_separates : Separates reportValue? := by
  intro d e v hd he
  rw [reportValue?_eq] at hd he
  obtain ⟨location, hlocation, rfl⟩ := Option.map_eq_some_iff.mp hd
  obtain ⟨location', hlocation', hv⟩ := Option.map_eq_some_iff.mp he
  have hmembers := JsonValue.present_injective (by decide) rfl rfl (ofFields_injective hv)
  simp only [members, List.cons.injEq, Option.some.injEq, and_true] at hmembers
  obtain ⟨hseverity, hcode, -, -, hmessage, helement, rfl, hexcerpt, hnotes, hhelp, houtput⟩ := hmembers
  have hstring := Option.map_injective ofString_injective
  have hlocations := locationValue?_separates.option_mapM hlocation hlocation'
  cases d
  cases e
  rw [Diagnostic.mk.injEq]
  exact ⟨(Severity.display_injective (ofString_injective hseverity)).symm, (hstring hcode).symm,
    (ofString_injective hmessage).symm, (Option.map_injective elementValue_injective helement).symm, hlocations,
    (Option.map_injective excerptValue_injective hexcerpt).symm, (notes_injective hnotes).symm,
    (hstring hhelp).symm, (hstring houtput).symm⟩

/-! All reports are values without other numbers than natural ones. -/

theorem isNatural_ofStrings (texts : List String) : (ofStrings texts).IsNatural := by
  refine .array fun v hv => ?_
  obtain ⟨s, -, rfl⟩ := List.mem_map.mp hv
  exact .string (some s)

theorem isNatural_elementValue (e : ElementRef) : (elementValue e).IsNatural := by
  refine isNatural_ofFields ?_
  simp only [List.forall_mem_cons, List.not_mem_nil, false_imp_iff, implies_true, and_true]
  exact ⟨.string (some e.kind.reportName), .string (some e.path)⟩

theorem isNatural_excerptValue (e : Excerpt) : (excerptValue e).IsNatural := by
  refine isNatural_ofFields ?_
  simp only [List.forall_mem_cons, List.not_mem_nil, false_imp_iff, implies_true, and_true]
  exact ⟨.number e.firstLine, isNatural_ofStrings e.lines⟩

theorem isNatural_of_fileValue? {file : Option Path} {v : JsonValue} (h : fileValue? file = some v) :
    v.IsNatural := by
  cases file with
  | none =>
    obtain rfl := Option.some.inj h
    exact .null
  | some file =>
    obtain ⟨s, -, rfl⟩ := Option.map_eq_some_iff.mp h
    exact .string (some s)

theorem isNatural_of_locationValue? {l : Location} {v : JsonValue} (h : locationValue? l = some v) :
    v.IsNatural := by
  rw [locationValue?_eq] at h
  obtain ⟨file, hfile, rfl⟩ := Option.map_eq_some_iff.mp h
  refine isNatural_ofFields ?_
  simp only [List.forall_mem_cons, List.not_mem_nil, false_imp_iff, implies_true, and_true]
  exact ⟨isNatural_of_fileValue? hfile, .number l.line⟩

theorem isNatural_of_mem_members (d : Diagnostic) {location : Option JsonValue}
    (h : ∀ v, location = some v → v.IsNatural) {v : JsonValue} (hv : some v ∈ d.members location) :
    v.IsNatural := by
  have hstring : ∀ {s : Option String}, s.map ofString = some v → v.IsNatural := by
    intro s hs
    obtain ⟨t, -, rfl⟩ := Option.map_eq_some_iff.mp hs
    exact .string (some t)
  simp only [members, List.mem_cons, List.not_mem_nil, or_false] at hv
  obtain hv | hv | hv | hv | hv | hv | hv | hv | hv | hv | hv := hv
  · rw [Option.some.inj hv]
    exact .string _
  · exact hstring hv.symm
  · obtain ⟨c, -, rfl⟩ := Option.map_eq_some_iff.mp hv.symm
    exact .string _
  · obtain ⟨c, -, rfl⟩ := Option.map_eq_some_iff.mp hv.symm
    exact .string _
  · rw [Option.some.inj hv]
    exact .string _
  · obtain ⟨e, -, rfl⟩ := Option.map_eq_some_iff.mp hv.symm
    exact isNatural_elementValue e
  · exact h v hv.symm
  · obtain ⟨e, -, rfl⟩ := Option.map_eq_some_iff.mp hv.symm
    exact isNatural_excerptValue e
  · split at hv
    · contradiction
    · rw [Option.some.inj hv]
      exact isNatural_ofStrings d.notes
  · exact hstring hv.symm
  · exact hstring hv.symm

theorem isNatural_of_reportValue? {d : Diagnostic} {v : JsonValue} (h : d.reportValue? = some v) :
    v.IsNatural := by
  rw [reportValue?_eq] at h
  obtain ⟨location, hlocation, rfl⟩ := Option.map_eq_some_iff.mp h
  have hnatural : ∀ v, location = some v → v.IsNatural := by
    rintro v rfl
    cases hl : d.location with
    | none => simp [hl] at hlocation
    | some l =>
      rw [hl] at hlocation
      obtain ⟨w, hw, hwv⟩ := Option.map_eq_some_iff.mp hlocation
      obtain rfl := Option.some.inj hwv
      exact isNatural_of_locationValue? hw
  refine isNatural_ofFields fun f hf => ?_
  exact d.isNatural_of_mem_members hnatural (List.of_mem_zip (JsonValue.mem_present.mp hf)).2

/-- The path of the file, where there is one, is UTF-8. -/
def HasText (d : Diagnostic) : Prop :=
  ∀ location ∈ d.location, ∀ file ∈ location.file, file.bytes.toString?.isSome

theorem HasText.reportValue?_isSome {d : Diagnostic} (h : d.HasText) : d.reportValue?.isSome := by
  have hfile : ∀ location ∈ d.location, (fileValue? location.file).isSome := by
    intro location hlocation
    cases hf : location.file with
    | none => rfl
    | some file => exact (Option.isSome_map ..).trans (h location hlocation file hf)
  rw [reportValue?_eq, Option.isSome_map]
  cases hl : d.location with
  | none => rfl
  | some location =>
    have hvalue : (locationValue? location).isSome := by
      rw [locationValue?_eq, Option.isSome_map]
      exact hfile location hl
    exact (Option.isSome_map ..).trans hvalue

end Diagnostic

namespace Report

open JsonValue (ofNat ofFields)

/-- The fields of a report on these diagnostics. -/
def fields (ds : List Diagnostic) (items : List JsonValue) : List (String × JsonValue) :=
  [("version", ofNat 1), ("success", .bool (count .error ds == 0)), ("diagnostics", .array items),
    ("error_count", ofNat (count .error ds)), ("warning_count", ofNat (count .warning ds))]

theorem value?_eq (ds : List Diagnostic) :
    value? ds = (ds.mapM Diagnostic.reportValue?).map fun items => ofFields (fields ds items) := by
  unfold value?
  cases ds.mapM Diagnostic.reportValue? <;> rfl

theorem value?_separates : Separates value? := by
  intro ds es v hds hes
  rw [value?_eq] at hds hes
  obtain ⟨items, hitems, rfl⟩ := Option.map_eq_some_iff.mp hds
  obtain ⟨items', hitems', hv⟩ := Option.map_eq_some_iff.mp hes
  have hfields := JsonValue.ofFields_injective hv
  simp only [fields, List.cons.injEq, Prod.mk.injEq, true_and, and_true] at hfields
  obtain rfl := JsonValue.array.inj hfields.2.1
  exact Diagnostic.reportValue?_separates.list_mapM hitems hitems'

theorem isNatural_of_value? {ds : List Diagnostic} {v : JsonValue} (h : value? ds = some v) : v.IsNatural := by
  rw [value?_eq] at h
  obtain ⟨items, hitems, rfl⟩ := Option.map_eq_some_iff.mp h
  have harray : (JsonValue.array items).IsNatural := by
    refine .array (forall_mem_of_forall₂ ?_ (mapM_eq_some_iff.mp hitems))
    exact fun d v hd => Diagnostic.isNatural_of_reportValue? hd
  refine JsonValue.isNatural_ofFields ?_
  simp only [fields, List.forall_mem_cons, List.not_mem_nil, false_imp_iff, implies_true, and_true]
  exact ⟨.number 1, .bool _, harray, .number _, .number _⟩

theorem count_eq_countP (severity : Severity) (ds : List Diagnostic) :
    count severity ds = ds.countP (·.severity = severity) := by
  rw [count, List.countP_eq_length_filter]
  rfl

theorem count_beq_zero (severity : Severity) (ds : List Diagnostic) :
    (count severity ds == 0) = decide (∀ d ∈ ds, d.severity ≠ severity) := by
  rw [Bool.eq_iff_iff, beq_iff_eq, decide_eq_true_iff, count_eq_countP, List.countP_eq_zero]
  simp

theorem text_of_value? {ds : List Diagnostic} {v : JsonValue} (h : value? ds = some v) : text ds = v.pretty := by
  rw [text, h, Option.map_some, Option.getD_some]

/-- A report is read back as its value. -/
theorem read?_text {ds : List Diagnostic} {v : JsonValue} (h : value? ds = some v) :
    JsonValue.read? (text ds).toList = some v := by
  have hnested : v.IsNested := by
    rw [value?_eq] at h
    obtain ⟨items, -, rfl⟩ := Option.map_eq_some_iff.mp h
    trivial
  rw [text_of_value? h]
  exact JsonValue.read?_pretty hnested (isNatural_of_value? h)

theorem exists_value? {ds : List Diagnostic} (hds : ∀ d ∈ ds, d.HasText) :
    ∃ items, value? ds = some (ofFields (fields ds items)) := by
  obtain ⟨items, hitems⟩ := exists_forall₂ fun d hd =>
    Option.isSome_iff_exists.mp (hds d hd).reportValue?_isSome
  exact ⟨items, by rw [value?_eq, mapM_eq_some_iff.mpr hitems, Option.map_some]⟩

theorem text_ne_noValue {ds : List Diagnostic} {items : List JsonValue}
    (h : value? ds = some (ofFields (fields ds items))) : text ds ≠ noValue := by
  intro htext
  rw [text_of_value? h, JsonValue.pretty, ← String.toList_inj, String.toList_ofList] at htext
  have hnewline : (JsonValue.indented 0 (ofFields (fields ds items)))[1]? = some '\n' := by
    rw [ofFields, JsonValue.indented]
    rfl
  have hquote : noValue.toList[1]? = some '"' := by decide
  rw [htext, hquote] at hnewline
  contradiction

/-- The text of a report with a value belongs to no other list of diagnostics. Programs that read it find the
numbers of errors and warnings there. -/
theorem text_eq_iff {ds : List Diagnostic} (hds : ∀ d ∈ ds, d.HasText) :
    (∀ es, text ds = text es ↔ ds = es) ∧
      ∃ report, JsonValue.read? (text ds).toList = some (ofFields report) ∧
        report.lookup "success" = some (.bool (decide (∀ d ∈ ds, d.severity ≠ .error))) ∧
        report.lookup "error_count" = some (ofNat (ds.countP (·.severity = .error))) ∧
        report.lookup "warning_count" = some (ofNat (ds.countP (·.severity = .warning))) := by
  obtain ⟨items, hvalue⟩ := exists_value? hds
  -- Both texts are read, and the text for a report without a value is not the text of a value.
  constructor
  · intro es
    constructor
    · intro h
      cases hes : value? es with
      | none =>
        have hnoValue : text es = noValue := by rw [text, hes, Option.map_none, Option.getD_none]
        exact absurd (h.trans hnoValue) (text_ne_noValue hvalue)
      | some v =>
        have hread := read?_text hes
        rw [← h, read?_text hvalue] at hread
        exact value?_separates (hvalue.trans hread) hes
    · rintro rfl
      rfl
  · refine ⟨fields ds items, read?_text hvalue, ?_, ?_, ?_⟩
    · rw [← count_beq_zero]
      rfl
    · rw [← count_eq_countP]
      rfl
    · rw [← count_eq_countP]
      rfl

theorem text_ne_of_quoted_note :
    let d : Diagnostic := (Diagnostic.bare .error "it failed").withLocation (some (.ofString "lib.rs")) 3
    text [d.withNotes ["first", "second"]] ≠ text [d.withNote "first\",\n        \"second"] ∧
      ∃ report, JsonValue.read? (text [d.withNotes ["first", "second"]]).toList = some (ofFields report) ∧
        report.lookup "success" = some (.bool false) ∧ report.lookup "error_count" = some (ofNat 1) ∧
        report.lookup "warning_count" = some (ofNat 0) := by
  intro d
  have htext : ∀ e ∈ [d.withNotes ["first", "second"]], e.HasText := by
    rintro e he location hlocation file hfile
    obtain rfl := List.mem_singleton.mp he
    obtain rfl := Option.some.inj hlocation
    obtain rfl := Option.some.inj hfile
    decide
  obtain ⟨hiff, report, hread, hsuccess, herrors, hwarnings⟩ := text_eq_iff htext
  refine ⟨fun h => ?_, report, hread, hsuccess, herrors, hwarnings⟩
  have hlists := (hiff _).mp h
  exact absurd hlists (by decide)

end Report

end Doctest
