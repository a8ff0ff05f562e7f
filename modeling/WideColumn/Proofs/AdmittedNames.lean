import WideColumn.Proofs.FaithfulPacking
import WideColumn.Proofs.FlatStore
import WideColumn.Proofs.Replicas

/-!
# Names that are admitted

A table admits whatever its layouts can unpack, and tells cells and partitions apart by bytes.
Unpacking passes over some of them: the byte that closes each component of a composite, and the
components in front of the column of a static name.  So different bytes can be admitted for the
same parts.

* `Composite.decodeComponents_ok` — what is unpacked is the components, sealed with any closing
  bytes;
* `CellLayout.eq_iff_passedOver`, `KeyLayout.eq_iff_passedOver` — **bytes with the same parts are
  equal if and only if the same was passed over**;
* `CellLayout.passedOver_of_encode`, `KeyLayout.passedOver_of_encode` — nothing is written there;
* `Admitting.performAll` — a table holds only what it admits;
* `admitted_alike_iff` — **cells of the same key and name are told apart in what is passed over**,
  and names and keys that were packed are not told apart at all;
* `two_cells_of_one_name` — a table that holds two.
-/

namespace WideColumn

open Effects

namespace Composite

/-! ### Closing bytes -/

/-- Components, each with its length in front and its closing byte behind. -/
def sealWith : List Bytes → Bytes → Bytes
  | component :: rest, close :: closes =>
    (component.length / 256).toUInt8 :: component.length.toUInt8 ::
      (component ++ close :: sealWith rest closes)
  | _, _ => []

/-- The closing bytes of the components. -/
def closings : Bytes → Bytes
  | hi :: lo :: rest =>
    let size := hi.toNat * 256 + lo.toNat
    match rest[size]? with
    | some close => close :: closings (rest.drop (size + 1))
    | none => []
  | _ => []
termination_by bytes => bytes.length
decreasing_by simp only [List.length_drop, List.length_cons]; omega

/-- The closing bytes of a packed composite. -/
def closingBytes (packed : Bytes) : Bytes :=
  closings (if staticMarker.isPrefixOf packed then packed.drop 2 else packed)

@[simp] theorem closings_nil : closings [] = [] := by
  simp [closings]

theorem bytes_of_length (hi lo : UInt8) :
    ((hi.toNat * 256 + lo.toNat) / 256).toUInt8 = hi ∧
      (hi.toNat * 256 + lo.toNat).toUInt8 = lo := by
  have hhi := hi.toNat_lt
  have hlo := lo.toNat_lt
  constructor
  · apply UInt8.toNat_inj.1
    simp only [Nat.toUInt8, UInt8.toNat_ofNat']
    omega
  · apply UInt8.toNat_inj.1
    simp only [Nat.toUInt8, UInt8.toNat_ofNat']
    omega

/-- What is unpacked is the components, sealed with the closing bytes. -/
theorem decodeComponents_ok {packed : Bytes} {components : List Bytes}
    (h : decodeComponents packed = .ok components) :
    (closings packed).length = components.length ∧
      packed = sealWith components (closings packed) := by
  fun_induction decodeComponents packed generalizing components with
  | case1 =>
    cases h
    rw [closings_nil]
    exact ⟨rfl, rfl⟩
  | case2 byte => cases h
  | case3 => cases h
  | case4 hi lo rest size hlong =>
    rename_i ih
    obtain ⟨more, hmore, h⟩ := except_bind_eq_ok.1 h
    cases h
    obtain ⟨hlength, hmore⟩ := ih hmore
    have hsize : size < rest.length := by omega
    have htake : (rest.take size).length = size := by
      rw [List.length_take]
      omega
    have hclosings : closings (hi :: lo :: rest) =
        rest[size] :: closings (rest.drop (size + 1)) := by
      rw [closings]
      simp only [size, List.getElem?_eq_getElem hsize]
    refine ⟨by rw [hclosings, List.length_cons, hlength, List.length_cons], ?_⟩
    rw [hclosings, sealWith, htake, (bytes_of_length hi lo).1, (bytes_of_length hi lo).2, ← hmore,
      ← List.drop_eq_getElem_cons hsize, List.take_append_drop]

/-- A composite is told by its parts and its closing bytes. -/
theorem decode_ok {packed : Bytes} {c : Composite} (h : decode packed = .ok c) :
    (closingBytes packed).length = c.components.length ∧
      packed = (if c.isStatic then staticMarker else []) ++
        sealWith c.components (closingBytes packed) := by
  unfold decode at h
  unfold closingBytes
  split at h
  · rename_i hmarker
    obtain ⟨components, hcomponents, h⟩ := except_bind_eq_ok.1 h
    cases h
    rw [if_pos hmarker]
    obtain ⟨hlength, hpacked⟩ := decodeComponents_ok hcomponents
    obtain ⟨rest, rfl⟩ := List.isPrefixOf_iff_prefix.1 hmarker
    exact ⟨hlength, congrArg (staticMarker ++ ·) hpacked⟩
  · rename_i hmarker
    obtain ⟨components, hcomponents, h⟩ := except_bind_eq_ok.1 h
    cases h
    rw [if_neg hmarker]
    exact decodeComponents_ok hcomponents

theorem eq_of_closingBytes {a b : Bytes} {c : Composite} (ha : decode a = .ok c)
    (hb : decode b = .ok c) (h : closingBytes a = closingBytes b) : a = b := by
  rw [(decode_ok ha).2, (decode_ok hb).2, h]

/-- Components are packed with closing bytes of zero. -/
theorem closings_of_encode {components : List Bytes} {packed : Bytes}
    (h : encodeComponents components = .ok packed) : ∀ close ∈ closings packed, close = 0 := by
  induction components generalizing packed with
  | nil =>
    cases h
    simp
  | cons component rest ih =>
    obtain ⟨first, more, hfirst, hmore, rfl⟩ := encodeComponents_cons_ok h
    obtain ⟨hsize, rfl⟩ := encodeComponent_ok hfirst
    have hclose : (component ++ 0 :: more)[component.length]? = some 0 := by simp
    have hdrop : (component ++ 0 :: more).drop (component.length + 1) = more := by
      rw [List.drop_append]
      simp
    simp only [List.cons_append, List.append_assoc, List.nil_append]
    rw [closings, length_of_bytes hsize]
    simp only [hclose, hdrop]
    exact List.forall_mem_cons.2 ⟨rfl, ih hmore⟩

theorem closingBytes_of_encode {c : Composite} {packed : Bytes} (h : c.encode = .ok packed) :
    ∀ close ∈ closingBytes packed, close = 0 := by
  obtain ⟨components, isStatic⟩ := c
  obtain ⟨body, hbody, h⟩ := except_bind_eq_ok.1 h
  cases h
  unfold closingBytes
  cases isStatic with
  | true =>
    rw [if_pos (by rfl)]
    exact closings_of_encode hbody
  | false =>
    rw [if_neg (by simp [not_staticMarker_of_encode hbody])]
    exact closings_of_encode hbody

end Composite

/-! ### What is passed over -/

/-- What unpacking passes over. -/
structure PassedOver where
  /-- The closing bytes of the components. -/
  closings : Bytes := []
  /-- The components in front of the column of a static name. -/
  leading : List Bytes := []
deriving DecidableEq, Repr

/-- Nothing is written in what is passed over. -/
structure PassedOver.IsBlank (p : PassedOver) : Prop where
  closings : ∀ close ∈ p.closings, close = 0
  leading : ∀ component ∈ p.leading, component = []

/-- As much that is blank is the same. -/
theorem PassedOver.IsBlank.eq {p q : PassedOver} (hp : p.IsBlank) (hq : q.IsBlank)
    (hclosings : p.closings.length = q.closings.length)
    (hleading : p.leading.length = q.leading.length) : p = q := by
  obtain ⟨closings, leading⟩ := p
  obtain ⟨closings', leading'⟩ := q
  have hsame : closings = closings' := by
    rw [show closings = _ from List.eq_replicate_of_mem hp.closings,
      show closings' = _ from List.eq_replicate_of_mem hq.closings]
    exact congrArg (List.replicate · 0) hclosings
  have hsame' : leading = leading' := by
    rw [show leading = _ from List.eq_replicate_of_mem hp.leading,
      show leading' = _ from List.eq_replicate_of_mem hq.leading]
    exact congrArg (List.replicate · []) hleading
  rw [hsame, hsame']

namespace CellLayout

/-- What unpacking a name passes over. -/
def passedOver (layout : CellLayout) (packed : Bytes) : PassedOver :=
  match layout with
  | simpleSparse _ | simpleDense _ => {}
  | compoundDense _ => { closings := Composite.closingBytes packed }
  | compoundSparse ts _ =>
    match Composite.decode packed with
    | .ok ⟨components, true⟩ =>
      { closings := Composite.closingBytes packed, leading := components.take ts.length }
    | _ => { closings := Composite.closingBytes packed }

theorem passedOver_compoundSparse {ts : List ColumnType} {cs : Option CollectionTypes}
    {packed : Bytes} {c : Composite} (h : Composite.decode packed = .ok c) :
    (compoundSparse ts cs).passedOver packed =
      ⟨Composite.closingBytes packed, if c.isStatic then c.components.take ts.length else []⟩ := by
  obtain ⟨components, isStatic⟩ := c
  unfold passedOver
  simp only [h]
  cases isStatic <;> rfl

/-- **Bytes with the same parts are equal if and only if the same was passed over.** -/
theorem eq_iff_passedOver {layout : CellLayout} {a b : Bytes} {name : CellName}
    (ha : layout.decode a = .ok name) (hb : layout.decode b = .ok name) :
    a = b ↔ layout.passedOver a = layout.passedOver b := by
  refine ⟨congrArg layout.passedOver, fun h => ?_⟩
  cases layout with
  | simpleSparse t =>
    obtain ⟨column, hcolumn, ha⟩ := except_bind_eq_ok.1 ha
    obtain ⟨column', hcolumn', hb⟩ := except_bind_eq_ok.1 hb
    cases ha
    cases hb
    rw [columnName_ok hcolumn, columnName_ok hcolumn']
  | simpleDense t =>
    cases ha
    cases hb
    rfl
  | compoundDense ts =>
    exact Composite.eq_of_closingBytes (compoundDense_decode_ok ha).1 (compoundDense_decode_ok hb).1
      (congrArg PassedOver.closings h)
  | compoundSparse ts cs =>
    obtain ⟨leading, column, hlength, hcolumn, hclustering, ha⟩ := compoundSparse_decode_ok ha
    obtain ⟨leading', column', hlength', hcolumn', hclustering', hb⟩ := compoundSparse_decode_ok hb
    rw [passedOver_compoundSparse ha, passedOver_compoundSparse hb] at h
    obtain ⟨hclosings, hleading⟩ := PassedOver.mk.inj h
    obtain rfl : column = column' := Option.some.inj (hcolumn.symm.trans hcolumn')
    have hsame : leading = leading' := by
      cases hstatic : name.isStatic with
      | true => simpa [hstatic, List.take_left' hlength, List.take_left' hlength'] using hleading
      | false => simpa [hstatic] using hclustering.symm.trans hclustering'
    rw [← hsame] at hb
    exact Composite.eq_of_closingBytes ha hb hclosings

/-- **Nothing is written in what unpacking a name passes over.** -/
theorem passedOver_of_encode {layout : CellLayout} {name : CellName} {packed : Bytes}
    (h : layout.encode name = .ok packed) : (layout.passedOver packed).IsBlank := by
  cases layout with
  | simpleSparse | simpleDense => exact ⟨nofun, nofun⟩
  | compoundDense ts =>
    exact ⟨Composite.closingBytes_of_encode (compoundDense_ok h).2.2, nofun⟩
  | compoundSparse ts cs =>
    obtain ⟨-, -, column, -, -, hpacked⟩ := compoundSparse_encode_eq_ok_iff.1 h
    rw [passedOver_compoundSparse (Composite.decode_encode hpacked)]
    refine ⟨Composite.closingBytes_of_encode hpacked, ?_⟩
    cases hstatic : name.isStatic with
    | true => simp
    | false => nofun

/-- Bytes in which nothing is written that unpacking passes over are told by their parts. -/
theorem eq_of_isBlank {layout : CellLayout} {a b : Bytes} {name : CellName}
    (ha : layout.decode a = .ok name) (hb : layout.decode b = .ok name)
    (hblank : (layout.passedOver a).IsBlank) (hblank' : (layout.passedOver b).IsBlank) : a = b := by
  rw [eq_iff_passedOver ha hb]
  cases layout with
  | simpleSparse | simpleDense => rfl
  | compoundDense ts =>
    obtain ⟨hlength, -⟩ := Composite.decode_ok (compoundDense_decode_ok ha).1
    obtain ⟨hlength', -⟩ := Composite.decode_ok (compoundDense_decode_ok hb).1
    exact hblank.eq hblank' (hlength.trans hlength'.symm) rfl
  | compoundSparse ts cs =>
    obtain ⟨leading, column, hleading, -, -, ha⟩ := compoundSparse_decode_ok ha
    obtain ⟨leading', column', hleading', -, -, hb⟩ := compoundSparse_decode_ok hb
    obtain ⟨hlength, -⟩ := Composite.decode_ok ha
    obtain ⟨hlength', -⟩ := Composite.decode_ok hb
    have hpassed := @passedOver_compoundSparse ts cs _ _ ha
    have hpassed' := @passedOver_compoundSparse ts cs _ _ hb
    simp only [List.length_append, List.length_cons] at hlength hlength'
    refine hblank.eq hblank' ?_ ?_
    · rw [hpassed, hpassed']
      show (Composite.closingBytes a).length = (Composite.closingBytes b).length
      omega
    · rw [hpassed, hpassed']
      cases name.isStatic <;> simp [hleading, hleading']

end CellLayout

namespace KeyLayout

/-- The closing bytes that unpacking a key passes over. -/
def passedOver (layout : KeyLayout) (key : Bytes) : Bytes :=
  match layout with
  | single _ => []
  | composite _ => Composite.closingBytes key

theorem composite_decode_ok {ts : List ColumnType} {key : Bytes} {parts : List Bytes}
    (h : (composite ts).decode key = .ok parts) : Composite.decode key = .ok ⟨parts, false⟩ := by
  obtain ⟨⟨components, isStatic⟩, hdecode, h⟩ := except_bind_eq_ok.1 h
  obtain ⟨hfits, h⟩ := ite_throw_eq_ok.1 h
  cases h
  rw [hdecode, show isStatic = false from Bool.eq_false_iff.2 fun h => hfits (.inl h)]

/-- **Keys with the same parts are equal if and only if the same was passed over.** -/
theorem eq_iff_passedOver {layout : KeyLayout} {a b : Bytes} {parts : List Bytes}
    (ha : layout.decode a = .ok parts) (hb : layout.decode b = .ok parts) :
    a = b ↔ layout.passedOver a = layout.passedOver b := by
  refine ⟨congrArg layout.passedOver, fun h => ?_⟩
  cases layout with
  | single t =>
    cases ha
    cases hb
    rfl
  | composite ts =>
    exact Composite.eq_of_closingBytes (composite_decode_ok ha) (composite_decode_ok hb) h

/-- **Keys are packed with closing bytes of zero.** -/
theorem passedOver_of_encode {layout : KeyLayout} {parts : List Bytes} {key : Bytes}
    (h : layout.encode parts = .ok key) : ∀ close ∈ layout.passedOver key, close = 0 := by
  cases layout with
  | single t => nofun
  | composite ts => exact Composite.closingBytes_of_encode (composite_ok h)

end KeyLayout

/-! ### Cells that are held -/

/-- The table is of the schema and holds only cells that it admits. -/
structure Admitting (schema : TableSchema) (s : TableStore) : Prop where
  layers : s.layers.WellFormed
  schema_eq : s.schema = schema
  held : ∀ key name c, s.get? key name = some c → schema.Admits ⟨key, c⟩

namespace Admitting

variable {σ : Type} {schema : TableSchema} {s : TableStore}

theorem ofSchema (schema : TableSchema) : Admitting schema (.ofSchema schema) :=
  ⟨Layers.WellFormed.empty, rfl, nofun⟩

theorem rearranged (h : Admitting schema s) {s' : TableStore} (hs : s.Rearranged s') :
    Admitting schema s' :=
  ⟨hs.layers, hs.schema.trans h.schema_eq, fun key name c hc => h.held key name c (hs.get? ▸ hc)⟩

theorem discard (h : Admitting schema s) {s' : TableStore} {timestamp : Int}
    (hs : s.Truncated s' timestamp) : Admitting schema s' := by
  refine ⟨hs.layers, hs.schema.trans h.schema_eq, fun key name c hc => ?_⟩
  rw [hs.get?] at hc
  exact h.held key name c (Option.filter_eq_some_iff.1 hc).1

theorem invalidate (h : Admitting schema s) : Admitting schema s.invalidate := by
  unfold TableStore.invalidate
  split
  · exact h
  · exact ⟨Layers.WellFormed.empty, h.schema_eq, nofun⟩

/-- A write that is accepted brings in only cells that passed the checks. -/
theorem apply (h : Admitting schema s) {s' : TableStore} {now : Int} {hook : WriteHook σ}
    {key : Bytes} {mutation : List Cell} {st st' : σ}
    (happly : runFrom (s.apply now hook key mutation) st = (.ok s', st')) :
    Admitting schema s' := by
  obtain ⟨hcheck, rfl, -⟩ := TableStore.apply_ok happly
  obtain ⟨-, hkey, hnames⟩ := TableStore.checkWrite_eq_ok.1 hcheck
  rw [h.schema_eq] at hkey hnames
  have hset {v : Ledger} {c : Cell} (hc : c ∈ mutation)
      (hv : ∀ k name d, v k name = some d → schema.Admits ⟨k, d⟩) :
      ∀ k name d, v.set key c k name = some d → schema.Admits ⟨k, d⟩ := by
    intro k name d hd
    unfold Ledger.set at hd
    split at hd
    · rename_i hsame
      obtain rfl := Option.some.inj hd
      obtain ⟨rfl, -⟩ := hsame
      exact ⟨hkey, hnames c hc⟩
    · exact hv k name d hd
  refine ⟨TableStore.written_wellFormed h.layers now key mutation, h.schema_eq, ?_⟩
  exact TableStore.apply_induction h.layers happly
    (fun v _ _ => ∀ k name d, v k name = some d → schema.Admits ⟨k, d⟩)
    (fun _ _ _ _ hc hv _ => hset hc hv) (fun _ _ _ _ _ _ hc hv _ _ => hset hc hv) h.held

theorem perform (h : Admitting schema s) (trace : HookTrace σ) (a : StoreAction σ) :
    Admitting schema (s.perform trace a).2.1 := by
  cases a with
  | apply now hook key mutation =>
    show Admitting schema (afterWrite s (s.apply now hook.traced key mutation) trace).2.1
    unfold afterWrite
    rcases happly : runFrom (s.apply now hook.traced key mutation) trace with ⟨e | s', trace'⟩
    · exact h
    · exact h.apply happly
  | issueFlush order =>
    unfold TableStore.perform
    rcases TableStore.issueFlush_cases h.layers order with ⟨e, -, hf⟩ | ⟨-, t, s', o, hf, hs⟩
    · simp only [hf]
      exact h
    · simp only [hf]
      exact h.rearranged hs
  | finishFlush ticket => exact h.rearranged (TableStore.finishFlush_rearranged h.layers ticket)
  | discard timestamp =>
    unfold TableStore.perform
    rcases TableStore.discard_cases h.layers timestamp with ⟨e, -, hd⟩ | ⟨-, s', hd, hs⟩
    · simp only [hd]
      exact h
    · simp only [hd]
      exact h.discard hs
  | invalidate => exact h.invalidate

/-- **A table holds only what it admits**, after every run of actions. -/
theorem performAll (h : Admitting schema s) (trace : HookTrace σ) (actions : List (StoreAction σ)) :
    Admitting schema (performAll TableStore.perform s trace actions).2.1 := by
  induction actions generalizing s trace with
  | nil => exact h
  | cons a rest ih =>
    show Admitting schema (WideColumn.performAll TableStore.perform (s.perform trace a).2.1
      (s.perform trace a).2.2 rest).2.1
    exact ih (h.perform trace a) _

end Admitting

/-- **Cells of the same key and name are told apart in what is passed over**, for all layouts and
in every table, whatever was done to it; and nothing is written there when names and keys are
packed, so that these are told by their parts. -/
theorem admitted_alike_iff (layout : CellLayout) (keyLayout : KeyLayout) :
    (∀ a b name, layout.decode a = .ok name → layout.decode b = .ok name →
      (a = b ↔ layout.passedOver a = layout.passedOver b) ∧
      ((layout.passedOver a).IsBlank → (layout.passedOver b).IsBlank → a = b)) ∧
    (∀ name packed, layout.encode name = .ok packed → (layout.passedOver packed).IsBlank) ∧
    (∀ a b parts, keyLayout.decode a = .ok parts → keyLayout.decode b = .ok parts →
      (a = b ↔ keyLayout.passedOver a = keyLayout.passedOver b)) ∧
    (∀ parts key, keyLayout.encode parts = .ok key →
      ∀ close ∈ keyLayout.passedOver key, close = 0) ∧
    ∀ (schema : TableSchema) {σ : Type} (actions : List (StoreAction σ)) (st : σ),
      let s := (performAll TableStore.perform (.ofSchema schema) ([], st) actions).2.1
      (∀ key c, (key, c) ∈ s.scan → schema.Admits ⟨key, c⟩) ∧
      ∀ key c key' c' parts name, (key, c) ∈ s.scan → (key', c') ∈ s.scan →
        schema.keyLayout.decode key = .ok parts → schema.keyLayout.decode key' = .ok parts →
        schema.cellLayout.decode c.name = .ok name → schema.cellLayout.decode c'.name = .ok name →
        ((key, c) = (key', c') ↔
          schema.keyLayout.passedOver key = schema.keyLayout.passedOver key' ∧
          schema.cellLayout.passedOver c.name = schema.cellLayout.passedOver c'.name) := by
  refine ⟨fun a b name ha hb => ⟨CellLayout.eq_iff_passedOver ha hb,
      CellLayout.eq_of_isBlank ha hb⟩, fun _ _ => CellLayout.passedOver_of_encode,
    fun _ _ _ => KeyLayout.eq_iff_passedOver, fun _ _ => KeyLayout.passedOver_of_encode, ?_⟩
  intro schema σ actions st s
  have h : Admitting schema s := (Admitting.ofSchema schema).performAll ([], st) actions
  refine ⟨fun key c hc => h.held key c.name c ((TableStore.mem_scan h.layers).1 hc), ?_⟩
  intro key c key' c' parts name hc hc' hkey hkey' hname hname'
  rw [← KeyLayout.eq_iff_passedOver hkey hkey', ← CellLayout.eq_iff_passedOver hname hname']
  constructor
  · intro hsame
    cases hsame
    exact ⟨rfl, rfl⟩
  · rintro ⟨rfl, hsame⟩
    have hget := (TableStore.mem_scan h.layers).1 hc
    have hget' := (TableStore.mem_scan h.layers).1 hc'
    rw [← hsame, hget] at hget'
    rw [Option.some.inj hget']

/-! ### Two names for one cell -/

/-- The name of the level at hour 8, but for its last byte, which is read over. -/
def otherLevelName : Bytes := (readingName "level").dropLast ++ [1]

/-- Writes the level under both names. -/
def levelTwice : StoreAction Unit :=
  .apply 0 WriteHook.none [65]
    [.ofValue (readingName "level") [49] 1, .ofValue otherLevelName [50] 1]

theorem otherLevelName_decode :
    readings.cellLayout.decode otherLevelName = .ok (.regular [[56]] "level") := by decide +kernel

theorem levelTwice_scan :
    (performAll TableStore.perform (.ofSchema readings) ([], ()) [levelTwice]).2.1.scan =
      [([65], .ofValue (readingName "level") [49] 1), ([65], .ofValue otherLevelName [50] 1)] := by
  decide +kernel

/-- What tells the two cells apart is the last byte of their names; and two keys of a site and a
year are told apart by a closing byte. -/
theorem admitted_alike_iff_levels :
    readings.cellLayout.encode (.regular [[56]] "level") = .ok (readingName "level") ∧
      (readings.cellLayout.passedOver (readingName "level")).IsBlank ∧
      ¬ (readings.cellLayout.passedOver otherLevelName).IsBlank ∧
      readings.Admits ⟨[65], .ofValue otherLevelName [50] 1⟩ ∧
      readings.cellLayout.passedOver (readingName "level") ≠
        readings.cellLayout.passedOver otherLevelName ∧
      (KeyLayout.composite [.text, .text]).passedOver [0, 1, 65, 0, 0, 1, 66, 0] ≠
        (KeyLayout.composite [.text, .text]).passedOver [0, 1, 65, 7, 0, 1, 66, 0] := by
  obtain ⟨hnames, hblank, hkeys, -, hheld⟩ :=
    admitted_alike_iff readings.cellLayout (.composite [.text, .text])
  have hencode : readings.cellLayout.encode (.regular [[56]] "level") =
      .ok (readingName "level") := rfl
  have hdecode : readings.cellLayout.decode (readingName "level") =
      .ok (.regular [[56]] "level") := CellLayout.decode_of_encode hencode
  have hkey : (KeyLayout.composite [.text, .text]).decode [0, 1, 65, 0, 0, 1, 66, 0] =
      .ok [[65], [66]] := by decide +kernel
  have hkey' : (KeyLayout.composite [.text, .text]).decode [0, 1, 65, 7, 0, 1, 66, 0] =
      .ok [[65], [66]] := by decide +kernel
  have hother : readingName "level" ≠ otherLevelName := by decide
  obtain ⟨hadmits, happart⟩ := hheld readings [levelTwice] ()
  rw [levelTwice_scan] at hadmits happart
  have hcells := happart _ _ _ _ [[65]] _ (.head _) (.tail _ (.head _)) rfl rfl hdecode
    otherLevelName_decode
  refine ⟨hencode, hblank _ _ hencode, fun h => ?_, hadmits _ _ (.tail _ (.head _)), fun h => ?_,
    fun h => ?_⟩
  · exact hother ((hnames _ _ _ hdecode otherLevelName_decode).2 (hblank _ _ hencode) h)
  · obtain ⟨⟩ := hcells.2 ⟨rfl, h⟩
  · exact absurd ((hkeys _ _ _ hkey hkey').2 h) (by decide)

/-- **Two cells of one name.**  A table takes in both.  The names of static cells can also differ in
the values in front of the column, and keys of several columns in closing bytes. -/
theorem two_cells_of_one_name :
    (∃ c d, (performAll TableStore.perform (.ofSchema readings) ([], ()) [levelTwice]).2.1.scan =
        [([65], c), ([65], d)] ∧ c ≠ d ∧
      readings.cellLayout.decode c.name = .ok (.regular [[56]] "level") ∧
      readings.cellLayout.decode d.name = .ok (.regular [[56]] "level")) ∧
    (readings.cellLayout.decode [0xff, 0xff, 0, 0, 0, 0, 1, 0x41, 0] = .ok (.ofStatic "A") ∧
      readings.cellLayout.decode [0xff, 0xff, 0, 1, 56, 0, 0, 1, 0x41, 0] = .ok (.ofStatic "A")) ∧
    ((KeyLayout.composite [.text, .text]).decode [0, 1, 0x41, 0, 0, 1, 0x42, 0] =
        .ok [[0x41], [0x42]] ∧
      (KeyLayout.composite [.text, .text]).decode [0, 1, 0x41, 7, 0, 1, 0x42, 0] =
        .ok [[0x41], [0x42]]) :=
  ⟨⟨_, _, levelTwice_scan, by decide, by decide +kernel, otherLevelName_decode⟩,
    ⟨by decide +kernel, by decide +kernel⟩, ⟨by decide +kernel, by decide +kernel⟩⟩

end WideColumn
