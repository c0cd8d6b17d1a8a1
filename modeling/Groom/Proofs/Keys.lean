import Groom.Toml.Document

/-! Tables that are read from a text hold each key once, on every level. Every way of adding to a
table looks for the key first. -/
namespace Groom.Toml

/-- In every table within a value each key stands once. -/
inductive Value.Distinct : Value → Prop where
  | string (text : String) : Distinct (.string text)
  | integer (n : Option Int) : Distinct (.integer n)
  | float (x : Real) : Distinct (.float x)
  | boolean (b : Bool) : Distinct (.boolean b)
  | moment (text : String) : Distinct (.moment text)
  | array {ofTables : Bool} {items : List Value} (h : ∀ v ∈ items, v.Distinct) :
      Distinct (.array ofTables items)
  | table {origin : Origin} {es : List (String × Value)} (hkeys : (es.map Prod.fst).Nodup)
      (h : ∀ e ∈ es, e.2.Distinct) : Distinct (.table origin es)

namespace Fields

def keys (es : Fields) : List String := es.map Prod.fst

/-- Each key of a table stands once, and so in the tables below it. -/
structure Distinct (es : Fields) : Prop where
  keys : es.keys.Nodup
  values : ∀ e ∈ es, e.2.Distinct

variable {es es' : Fields} {key : String} {value : Value}

theorem distinct_nil : Distinct [] := ⟨List.nodup_nil, nofun⟩

theorem distinct_of_table {origin : Origin} (h : Value.Distinct (.table origin es)) :
    es.Distinct := by
  cases h with
  | table hkeys h => exact ⟨hkeys, h⟩

theorem Distinct.table (h : es.Distinct) (origin : Origin) : Value.Distinct (.table origin es) :=
  .table h.keys h.values

theorem mem_of_find? (h : find? key es = some value) : (key, value) ∈ es := by
  induction es with
  | nil => cases h
  | cons e rest ih =>
    obtain ⟨k, v⟩ := e
    simp only [find?] at h
    split at h
    · rename_i hk
      cases h
      rw [hk]
      exact List.mem_cons_self
    · exact List.mem_cons_of_mem _ (ih h)

theorem mem_set {e : String × Value} (h : e ∈ set key value es) : e = (key, value) ∨ e ∈ es := by
  induction es with
  | nil => exact .inl (List.mem_singleton.mp h)
  | cons f rest ih =>
    obtain ⟨k, v⟩ := f
    simp only [set] at h
    split at h
    · rename_i hk
      exact (List.mem_cons.mp h).imp (hk ▸ ·) (List.mem_cons_of_mem _)
    · obtain rfl | h := List.mem_cons.mp h
      · exact .inr List.mem_cons_self
      · exact (ih h).imp_right (List.mem_cons_of_mem _)

/-- A key that gets a value is not written a second time. -/
theorem Distinct.set (h : es.Distinct) (hvalue : value.Distinct) (key : String) :
    (Fields.set key value es).Distinct := by
  constructor
  · have hkeys := h.keys
    clear h
    induction es with
    | nil => exact List.nodup_cons.mpr ⟨List.not_mem_nil, List.nodup_nil⟩
    | cons e rest ih =>
      obtain ⟨k, v⟩ := e
      obtain ⟨hk, hrest⟩ := List.nodup_cons.mp hkeys
      simp only [Fields.set]
      split
      · exact hkeys
      · rename_i hne
        refine List.nodup_cons.mpr ⟨fun hmem => ?_, ih hrest⟩
        obtain ⟨f, hf, hfk⟩ := List.mem_map.mp hmem
        obtain rfl | hf := mem_set hf
        · exact hne hfk.symm
        · exact hk (List.mem_map.mpr ⟨f, hf, hfk⟩)
  · intro e he
    obtain rfl | he := mem_set he
    · exact hvalue
    · exact h.values e he

theorem Distinct.find? (h : es.Distinct) (hfind : Fields.find? key es = some value) :
    value.Distinct :=
  h.values _ (mem_of_find? hfind)

/-- What a change keeps distinct stays so when the change is made further down. -/
theorem Distinct.descend {dotted : Bool} {change : Origin → Fields → Option Fields}
    (hchange : ∀ {origin es es'}, es.Distinct → change origin es = some es' → es'.Distinct)
    {path : List String} {origin : Origin} (h : es.Distinct)
    (heq : Fields.descend dotted change path origin es = some es') : es'.Distinct := by
  induction path generalizing origin es es' with
  | nil => exact hchange h heq
  | cons key path ih =>
    simp only [Fields.descend] at heq
    split at heq
    · obtain ⟨sub, hsub, rfl⟩ := Option.map_eq_some_iff.mp heq
      exact h.set ((ih distinct_nil hsub).table _) key
    · rename_i origin' sub hfind
      split at heq
      · cases heq
      · obtain ⟨sub', hsub', rfl⟩ := Option.map_eq_some_iff.mp heq
        exact h.set ((ih (distinct_of_table (h.find? hfind)) hsub').table _) key
    · rename_i items hfind
      split at heq
      · rename_i origin' sub before hitems
        obtain ⟨sub', hsub', rfl⟩ := Option.map_eq_some_iff.mp heq
        have harray := h.find? hfind
        cases harray with
        | array hall =>
          have hmem : ∀ v ∈ Value.table origin' sub :: before, v.Distinct := by
            rw [← hitems]
            exact fun v hv => hall v (List.mem_reverse.mp hv)
          obtain ⟨hlast, hbefore⟩ := List.forall_mem_cons.mp hmem
          have hnew : ∀ v ∈ Value.table origin' sub' :: before, v.Distinct :=
            List.forall_mem_cons.mpr ⟨(ih (distinct_of_table hlast) hsub').table _, hbefore⟩
          exact h.set (.array fun v hv => hnew v (List.mem_reverse.mp hv)) key
      · cases heq
    · cases heq

theorem Distinct.assign {path : List String} {origin : Origin} (h : es.Distinct)
    (hvalue : value.Distinct) (heq : Fields.assign path key value origin es = some es') :
    es'.Distinct := by
  refine Distinct.descend (fun h heq => ?_) h heq
  split at heq
  · cases heq
  · split at heq
    · cases heq
    · cases heq
      exact h.set hvalue key

theorem Distinct.openTable {path : List String} (h : es.Distinct)
    (heq : Fields.openTable path key es = some es') : es'.Distinct := by
  refine Distinct.descend (fun h heq => ?_) h heq
  split at heq
  · cases heq
    exact h.set (distinct_nil.table _) key
  · rename_i sub hfind
    cases heq
    exact h.set ((distinct_of_table (h.find? hfind)).table _) key
  · cases heq

theorem Distinct.extendArray {path : List String} (h : es.Distinct)
    (heq : Fields.extendArray path key es = some es') : es'.Distinct := by
  refine Distinct.descend (fun h heq => ?_) h heq
  have hempty : Value.Distinct (.table .header []) := distinct_nil.table _
  split at heq
  · cases heq
    exact h.set (.array (List.forall_mem_singleton.mpr hempty)) key
  · rename_i items hfind
    cases heq
    have harray := h.find? hfind
    cases harray with
    | array hall =>
      refine h.set (.array fun v hv => ?_) key
      obtain hv | hv := List.mem_append.mp hv
      · exact hall v hv
      · exact List.mem_singleton.mp hv ▸ hempty
  · cases heq

end Fields

namespace Scalar

variable {cs rest : List Char} {value : Value}

theorem based?_distinct {base : Nat} (h : based? base cs = some value) : value.Distinct := by
  unfold based? at h
  split at h
  · cases h
    exact .integer none
  · obtain ⟨n, -, rfl⟩ := Option.map_eq_some_iff.mp h
    exact .integer _

theorem integer?_distinct (h : integer? cs = some value) : value.Distinct := by
  unfold integer? at h
  split at h
  · cases h
  · cases h
  · cases h
  · cases h
    exact .integer _

theorem quantity?_distinct (h : quantity? cs = some value) : value.Distinct := by
  unfold quantity? at h
  dsimp only at h
  split at h
  · obtain ⟨text, -, rfl⟩ := Option.map_eq_some_iff.mp h
    exact .moment text
  · split at h
    · obtain ⟨x, -, rfl⟩ := Option.map_eq_some_iff.mp h
      exact .float x
    · split at h
      · exact integer?_distinct h
      · cases h

theorem value?_distinct (h : value? cs = some value) : value.Distinct := by
  unfold value? at h
  split at h
  · cases h
    exact .boolean true
  · cases h
    exact .boolean false
  · exact based?_distinct h
  · exact based?_distinct h
  · exact based?_distinct h
  · dsimp only at h
    split at h
    · cases h
      exact .float _
    · split at h
      · cases h
        exact .float _
      · exact quantity?_distinct h

theorem scan?_distinct (h : scan? cs = some (value, rest)) : value.Distinct := by
  have hvalue {first rest' : List Char}
      (h : (value? first).map (·, rest') = some (value, rest)) : value.Distinct := by
    obtain ⟨v, hv, heq⟩ := Option.map_eq_some_iff.mp h
    cases heq
    exact value?_distinct hv
  unfold scan? at h
  dsimp only at h
  split at h
  · split at h
    · exact hvalue h
    · exact hvalue h
  · exact hvalue h

end Scalar

/-- What one step deeper in a text gives has distinct keys, if what is below it has. -/
theorem values_distinct (fuel : Nat) :
    (∀ {depth cs value rest}, value? fuel depth cs = some (value, rest) → value.Distinct) ∧
    (∀ {depth cs items rest}, items? fuel depth cs = some (items, rest) →
      ∀ v ∈ items, Value.Distinct v) ∧
    ∀ {depth es cs es' rest}, fields? fuel depth es cs = some (es', rest) → es.Distinct →
      Fields.Distinct es' := by
  induction fuel with
  | zero => exact ⟨by simp [value?], by simp [items?], by simp [fields?]⟩
  | succ fuel ih =>
    obtain ⟨hvalue, hitems, hfields⟩ := ih
    refine ⟨?_, ?_, ?_⟩
    · intro depth cs value rest h
      have htext {cs : List Char} (h : (Quoted.text? cs).map
          (fun scanned => (Value.string (String.ofList scanned.1), scanned.2)) =
            some (value, rest)) :
          value.Distinct := by
        obtain ⟨_, -, heq⟩ := Option.map_eq_some_iff.mp h
        cases heq
        exact .string _
      simp only [value?] at h
      split at h
      · exact htext h
      · exact htext h
      · cases depth with
        | zero => cases h
        | succ depth =>
          simp only [Option.bind_eq_bind, Option.bind_eq_some_iff] at h
          obtain ⟨_, -, ⟨items, _⟩, hscan, heq⟩ := h
          cases heq
          exact .array (hitems hscan)
      · cases depth with
        | zero => cases h
        | succ depth =>
          simp only [Option.bind_eq_bind, Option.bind_eq_some_iff] at h
          obtain ⟨_, -, ⟨es, _⟩, hscan, heq⟩ := h
          cases heq
          exact (hfields hscan Fields.distinct_nil).table _
      · exact Scalar.scan?_distinct h
    · intro depth cs items rest h
      simp only [items?] at h
      split at h
      · cases h
        exact List.forall_mem_nil _
      · simp only [Option.bind_eq_bind, Option.bind_eq_some_iff] at h
        obtain ⟨⟨item, _⟩, hitem, _, -, h⟩ := h
        split at h
        · cases h
          exact List.forall_mem_singleton.mpr (hvalue hitem)
        · simp only [Option.bind_eq_some_iff] at h
          obtain ⟨_, -, ⟨items, _⟩, hscan, heq⟩ := h
          cases heq
          exact List.forall_mem_cons.mpr ⟨hvalue hitem, hitems hscan⟩
        · cases h
    · intro depth es cs es' rest h hes
      simp only [fields?] at h
      split at h
      · cases h
        exact hes
      · simp only [Option.bind_eq_bind, Option.bind_eq_some_iff] at h
        obtain ⟨⟨path, key, _⟩, -, _, -, ⟨value, _⟩, hscan, es₁, hassign, _, -, h⟩ := h
        have hes₁ : es₁.Distinct := hes.assign (hvalue hscan) hassign
        split at h
        · cases h
          exact hes₁
        · simp only [Option.bind_eq_some_iff] at h
          obtain ⟨_, -, hscan⟩ := h
          exact hfields hscan hes₁
        · cases h

theorem lines?_distinct {fuel : Nat} {here : List String} {es es' : Fields} {cs : List Char}
    (h : lines? fuel here es cs = some es') (hes : es.Distinct) : es'.Distinct := by
  induction fuel generalizing here es cs with
  | zero => simp [lines?] at h
  | succ fuel ih =>
    simp only [lines?, Option.bind_eq_bind, Option.bind_eq_some_iff] at h
    obtain ⟨_, -, h⟩ := h
    split at h
    · cases h
      exact hes
    · obtain ⟨⟨path, key, _⟩, -, h⟩ := Option.bind_eq_some_iff.mp h
      dsimp only at h
      split at h
      · simp only [Option.bind_eq_some_iff] at h
        obtain ⟨es₁, hextend, _, -, h⟩ := h
        exact ih h (hes.extendArray hextend)
      · cases h
    · obtain ⟨⟨path, key, _⟩, -, h⟩ := Option.bind_eq_some_iff.mp h
      dsimp only at h
      split at h
      · simp only [Option.bind_eq_some_iff] at h
        obtain ⟨es₁, hopen, _, -, h⟩ := h
        exact ih h (hes.openTable hopen)
      · cases h
    · simp only [Option.bind_eq_some_iff] at h
      obtain ⟨⟨path, key, _⟩, -, _, -, ⟨value, _⟩, hscan, es₁, hassign, _, -, h⟩ := h
      have hvalue : value.Distinct := (values_distinct fuel).1 hscan
      exact ih h (hes.descend (fun hsub => hsub.assign hvalue) hassign)

/-- A text is read into a table with distinct keys. -/
theorem parse?_distinct {text : String} {es : Fields} (h : parse? text = some es) :
    es.Distinct := lines?_distinct h Fields.distinct_nil

end Groom.Toml
