import Mathlib.Data.List.Chain
import Doctest.Json.Reader

/-! The tokens of a value. They lead back to the value, and no two scalars stand side by side in them. -/
namespace Doctest

namespace JsonToken

def isScalar : JsonToken → Bool
  | .scalar _ => true
  | _ => false

/-- Of two neighbours at most one is a scalar. -/
def Apart (ts : List JsonToken) : Prop :=
  ts.IsChain fun t u => t.isScalar = false ∨ u.isScalar = false

theorem Apart.cons {t : JsonToken} {ts : List JsonToken} (ht : t.isScalar = false) (h : Apart ts) :
    Apart (t :: ts) := by
  unfold Apart
  rw [List.isChain_cons]
  exact ⟨fun _ _ => .inl ht, h⟩

theorem Apart.cons_cons (t : JsonToken) {u : JsonToken} {ts : List JsonToken} (hu : u.isScalar = false)
    (h : Apart ts) : Apart (t :: u :: ts) := by
  unfold Apart
  rw [List.isChain_cons_cons]
  exact ⟨.inr hu, h.cons hu⟩

theorem Apart.append {ts us : List JsonToken} (hts : Apart ts) (hus : Apart us)
    (hhead : ∀ u ∈ us.head?, u.isScalar = false) : Apart (ts ++ us) := by
  unfold Apart
  rw [List.isChain_append]
  exact ⟨hts, hus, fun _ _ u hu => .inr (hhead u hu)⟩

end JsonToken

namespace JsonValue

open JsonToken (Apart)

mutual

def tokens : JsonValue → List JsonToken
  | .array items => .openArray :: itemTokens items
  | .object fields => .openObject :: fieldTokens fields
  | v => [.scalar v]

/-- The tokens from the first item up to the end of the array. -/
def itemTokens : List JsonValue → List JsonToken
  | [] => [.closeArray]
  | v :: vs => tokens v ++ moreItemTokens vs

def moreItemTokens : List JsonValue → List JsonToken
  | [] => [.closeArray]
  | v :: vs => .comma :: (tokens v ++ moreItemTokens vs)

def fieldTokens : List (Option String × JsonValue) → List JsonToken
  | [] => [.closeObject]
  | (key, v) :: fields => .scalar (.string key) :: .colon :: (tokens v ++ moreFieldTokens fields)

def moreFieldTokens : List (Option String × JsonValue) → List JsonToken
  | [] => [.closeObject]
  | (key, v) :: fields =>
    .comma :: .scalar (.string key) :: .colon :: (tokens v ++ moreFieldTokens fields)

end

/-! Reading the tokens of a value, with whatever comes after them. -/

/-- What is read where an array or object ends. -/
def afterClose (v : JsonValue) (outer : List Frame) (rest : List JsonToken) : Option JsonValue :=
  match outer with
  | [] => if rest.isEmpty then some v else none
  | top :: outer => ofTokens? (top.put v) outer .after rest

theorem ofTokens?_closeArray (items : List JsonValue) (outer : List Frame) (rest : List JsonToken) :
    ofTokens? (.array items) outer .after (.closeArray :: rest) =
      afterClose (.array items.reverse) outer rest := by
  cases outer <;> rfl

theorem ofTokens?_closeObject (fields : List (Option String × JsonValue)) (key : Option String)
    (outer : List Frame) (rest : List JsonToken) :
    ofTokens? (.object fields key) outer .after (.closeObject :: rest) =
      afterClose (.object fields.reverse) outer rest := by
  cases outer <;> rfl

/-- No value begins with a closing bracket. -/
theorem ofTokens?_firstItem (v : JsonValue) (top : Frame) (outer : List Frame) (rest : List JsonToken) :
    ofTokens? top outer .firstItem (v.tokens ++ rest) = ofTokens? top outer .value (v.tokens ++ rest) := by
  unfold tokens
  split <;> rfl

mutual

theorem ofTokens?_tokens : ∀ (v : JsonValue) (top : Frame) (outer : List Frame) (rest : List JsonToken),
    ofTokens? top outer .value (v.tokens ++ rest) = ofTokens? (top.put v) outer .after rest
  | .null, _, _, _ | .bool _, _, _, _ | .number _, _, _, _ | .string _, _, _, _ => by rfl
  | .array items, top, outer, rest => by
    rw [tokens]
    exact ofTokens?_itemTokens items (top :: outer) rest
  | .object fields, top, outer, rest => by
    rw [tokens]
    exact ofTokens?_fieldTokens fields (top :: outer) rest

theorem ofTokens?_itemTokens : ∀ (items : List JsonValue) (outer : List Frame) (rest : List JsonToken),
    ofTokens? (.array []) outer .firstItem (itemTokens items ++ rest) = afterClose (.array items) outer rest
  | [], outer, rest => by cases outer <;> rfl
  | v :: vs, outer, rest => by
    rw [itemTokens, List.append_assoc, ofTokens?_firstItem, ofTokens?_tokens v]
    exact ofTokens?_moreItemTokens vs [v] outer rest

theorem ofTokens?_moreItemTokens : ∀ (vs items : List JsonValue) (outer : List Frame)
    (rest : List JsonToken), ofTokens? (.array items) outer .after (moreItemTokens vs ++ rest) =
      afterClose (.array (items.reverse ++ vs)) outer rest
  | [], items, outer, rest => by
    rw [moreItemTokens, List.append_nil]
    exact ofTokens?_closeArray items outer rest
  | v :: vs, items, outer, rest => by
    have hcomma : ofTokens? (.array items) outer .after (moreItemTokens (v :: vs) ++ rest) =
        ofTokens? (.array items) outer .value (v.tokens ++ (moreItemTokens vs ++ rest)) := by
      rw [moreItemTokens, List.cons_append, List.append_assoc]
      rfl
    rw [hcomma, ofTokens?_tokens v, Frame.put, ofTokens?_moreItemTokens vs, List.reverse_cons,
      List.append_assoc, List.singleton_append]

theorem ofTokens?_fieldTokens : ∀ (fields : List (Option String × JsonValue)) (outer : List Frame)
    (rest : List JsonToken), ofTokens? (.object [] none) outer .firstKey (fieldTokens fields ++ rest) =
      afterClose (.object fields) outer rest
  | [], outer, rest => by cases outer <;> rfl
  | (key, v) :: fields, outer, rest => by
    have hkey : ofTokens? (.object [] none) outer .firstKey (fieldTokens ((key, v) :: fields) ++ rest) =
        ofTokens? (.object [] key) outer .value (v.tokens ++ (moreFieldTokens fields ++ rest)) := by
      rw [fieldTokens, List.cons_append, List.cons_append, List.append_assoc]
      rfl
    rw [hkey, ofTokens?_tokens v]
    exact ofTokens?_moreFieldTokens fields [(key, v)] key outer rest

theorem ofTokens?_moreFieldTokens : ∀ (more fields : List (Option String × JsonValue))
    (key : Option String) (outer : List Frame) (rest : List JsonToken),
    ofTokens? (.object fields key) outer .after (moreFieldTokens more ++ rest) =
      afterClose (.object (fields.reverse ++ more)) outer rest
  | [], fields, key, outer, rest => by
    rw [moreFieldTokens, List.append_nil]
    exact ofTokens?_closeObject fields key outer rest
  | (name, v) :: more, fields, key, outer, rest => by
    have hcomma : ofTokens? (.object fields key) outer .after (moreFieldTokens ((name, v) :: more) ++ rest) =
        ofTokens? (.object fields name) outer .value (v.tokens ++ (moreFieldTokens more ++ rest)) := by
      rw [moreFieldTokens, List.cons_append, List.cons_append, List.cons_append, List.append_assoc]
      rfl
    rw [hcomma, ofTokens?_tokens v, Frame.put, ofTokens?_moreFieldTokens more, List.reverse_cons,
      List.append_assoc, List.singleton_append]

end

/-- An array or object, which is what a text may hold. -/
def IsNested : JsonValue → Prop
  | .array _ | .object _ => True
  | _ => False

theorem read?_of_split? {v : JsonValue} (hv : v.IsNested) {text : List Char}
    (h : JsonToken.split? text = some v.tokens) : read? text = some v := by
  unfold read?
  cases v with
  | array items =>
    have hitems := ofTokens?_itemTokens items [] []
    rw [List.append_nil] at hitems
    rw [h, tokens]
    exact hitems
  | object fields =>
    have hfields := ofTokens?_fieldTokens fields [] []
    rw [List.append_nil] at hfields
    rw [h, tokens]
    exact hfields
  | _ => exact hv.elim

/-! What follows an item or a field is a comma or a closing bracket, so scalars do not meet. -/

theorem isScalar_head_moreItemTokens (vs : List JsonValue) :
    ∀ t ∈ (moreItemTokens vs).head?, t.isScalar = false := by
  cases vs <;> simp [moreItemTokens, JsonToken.isScalar]

theorem isScalar_head_moreFieldTokens (fields : List (Option String × JsonValue)) :
    ∀ t ∈ (moreFieldTokens fields).head?, t.isScalar = false := by
  cases fields <;> simp [moreFieldTokens, JsonToken.isScalar]

mutual

theorem apart_tokens : ∀ v : JsonValue, Apart v.tokens
  | .null | .bool _ | .number _ | .string _ => List.isChain_singleton _
  | .array items => by
    rw [tokens]
    exact (apart_itemTokens items).cons rfl
  | .object fields => by
    rw [tokens]
    exact (apart_fieldTokens fields).cons rfl

theorem apart_itemTokens : ∀ items : List JsonValue, Apart (itemTokens items)
  | [] => List.isChain_singleton _
  | v :: vs => by
    rw [itemTokens]
    exact (apart_tokens v).append (apart_moreItemTokens vs) (isScalar_head_moreItemTokens vs)

theorem apart_moreItemTokens : ∀ vs : List JsonValue, Apart (moreItemTokens vs)
  | [] => List.isChain_singleton _
  | v :: vs => by
    rw [moreItemTokens]
    exact ((apart_tokens v).append (apart_moreItemTokens vs) (isScalar_head_moreItemTokens vs)).cons rfl

theorem apart_fieldTokens : ∀ fields : List (Option String × JsonValue), Apart (fieldTokens fields)
  | [] => List.isChain_singleton _
  | (key, v) :: fields => by
    rw [fieldTokens]
    exact .cons_cons _ rfl
      ((apart_tokens v).append (apart_moreFieldTokens fields) (isScalar_head_moreFieldTokens fields))

theorem apart_moreFieldTokens : ∀ fields : List (Option String × JsonValue),
    Apart (moreFieldTokens fields)
  | [] => List.isChain_singleton _
  | (key, v) :: fields => by
    rw [moreFieldTokens]
    exact .cons rfl (.cons_cons _ rfl
      ((apart_tokens v).append (apart_moreFieldTokens fields) (isScalar_head_moreFieldTokens fields)))

end

end JsonValue

end Doctest
