import ScApi.Lib.BsonCode
import ScApi.Lib.FloatFormat
import ScApi.SubDocuments

/-!
# Requests for effect pipelines

`FfbPipeline::configure` sends the configuration of a pipeline as the fields of a command: three
enumerations by their names, and a float as a double. The numbers of the session and of the pipeline
go with it. The gain is not sent.

## Main results

* `configureRequest_eq`: the bytes of a request.
* `configureRequest_ne_iff`: when two configurations make different requests.
-/

open Bytes Bson

namespace ScApi

open CommandRequest FloatFormat

/-! ### The configuration -/

/-- `OffsetType`. -/
inductive OffsetType where
  | torqueNm
  | forceN
  | forceRelative
  | positionMm
  deriving DecidableEq, Repr

/-- `InterpolationType`. -/
inductive InterpolationType where
  | none
  | linear
  deriving DecidableEq, Repr

/-- `FilterType`. -/
inductive FilterType where
  | none
  | lowPass
  | slewRateLimit
  deriving DecidableEq, Repr

/-- `PipelineConfig`. Floats are kept as their bits; both have the initial value 1. -/
structure PipelineConfig where
  offsetType : OffsetType
  interpolationType : InterpolationType := .linear
  gain : BitVec 32 := 0x3F800000
  filterType : FilterType := .none
  filterParameter : BitVec 32 := 0x3F800000
  deriving DecidableEq, Repr

/-- The bits are those of a number. -/
def IsNumber (x : BitVec 32) : Prop :=
  ¬ IsNaN binary32 (binary32.unpack x.toNat)

instance (x : BitVec 32) : Decidable (IsNumber x) :=
  inferInstanceAs (Decidable (¬ _))

/-- Neither of the floats is a NaN. -/
structure PipelineConfig.Numbers (config : PipelineConfig) : Prop where
  gain : IsNumber config.gain
  filterParameter : IsNumber config.filterParameter

/-- The conversion of a `float` to `double`. -/
def doubleOfFloat (x : BitVec 32) : BitVec 64 :=
  BitVec.ofNat 64 (binary64.pack (widen binary32 binary64 (binary32.unpack x.toNat)))

/-! ### The request -/

/-- The first switch of `configure`. -/
def offsetTypeStr : OffsetType → List UInt8
  | .forceN => ascii "force"
  | .forceRelative => ascii "force_relative"
  | .positionMm => ascii "position"
  | .torqueNm => ascii "torque"

/-- The second switch. -/
def interpolationTypeStr : InterpolationType → List UInt8
  | .linear => ascii "linear"
  | .none => ascii "none"

/-- The third switch. -/
def filterTypeStr : FilterType → List UInt8
  | .lowPass => ascii "low_pass"
  | .none => ascii "none"
  | .slewRateLimit => ascii "slew_rate_limit"

/-- The calls of `docAddElement` in `configure`. The number of a pipeline is an `int8_t`. -/
def configureCalls (device : UInt16) (pipelineId : ℤ) (config : PipelineConfig) :
    List BuilderCall :=
  [.add (.name (ascii "device_session_id")) (.i32 (BitVec.ofNat 32 device.toNat)),
    .add (.name (ascii "offset_mode")) (.string (offsetTypeStr config.offsetType)),
    .add (.name (ascii "interpolation_mode"))
      (.string (interpolationTypeStr config.interpolationType)),
    .add (.name (ascii "filter_mode")) (.string (filterTypeStr config.filterType)),
    .add (.name (ascii "filter_parameter")) (.double (doubleOfFloat config.filterParameter))]
    ++ if pipelineId ≥ 0 then
        [.add (.name (ascii "pipeline_id")) (.i32 (BitVec.ofInt 32 pipelineId))]
      else []

/-- The bytes that `configure` sends with the number `cmdId` of the command. -/
def configureRequest (platform : Platform) (device : UInt16) (pipelineId : ℤ) (cmdId : BitVec 32)
    (config : PipelineConfig) : Build (List UInt8) :=
  finalized platform (configureCalls device pipelineId config) cmdId
    (initializeCommand platform (ascii "ffb") (ascii "configure_pipeline") {})

/-- The elements of the command. -/
def configureFields (device : UInt16) (pipelineId : ℤ) (config : PipelineConfig) : Elements :=
  .leaf (ascii "device_session_id") (.i32 (BitVec.ofNat 32 device.toNat))
    (.leaf (ascii "offset_mode") (.string (offsetTypeStr config.offsetType))
    (.leaf (ascii "interpolation_mode") (.string (interpolationTypeStr config.interpolationType))
    (.leaf (ascii "filter_mode") (.string (filterTypeStr config.filterType))
    (.leaf (ascii "filter_parameter") (.double (doubleOfFloat config.filterParameter))
    (if pipelineId ≥ 0 then
      .leaf (ascii "pipeline_id") (.i32 (BitVec.ofInt 32 pipelineId)) .nil
    else .nil)))))

section Configure

variable {device : UInt16} {pipelineId : ℤ} {config config' : PipelineConfig}

theorem addsFields_configure (device : UInt16) (pipelineId : ℤ) (config : PipelineConfig) :
    AddsFields StoredArray (configureCalls device pipelineId config) (configureFields device pipelineId config) := by
  rw [configureCalls, configureFields]
  refine .value _ _ (.value _ _ (.value _ _ (.value _ _ (.value _ _ ?_))))
  split_ifs
  · exact .value _ _ .done
  · exact .done

/-- The fields of a configuration take at most 162 bytes. -/
theorem length_configureFields (device : UInt16) (pipelineId : ℤ) (config : PipelineConfig) :
    (configureFields device pipelineId config).bytes.length ≤ 162 := by
  have hoffset : (offsetTypeStr config.offsetType).length ≤ 14 := by
    cases config.offsetType <;> decide
  have hinterpolation : (interpolationTypeStr config.interpolationType).length ≤ 6 := by
    cases config.interpolationType <;> decide
  have hfilter : (filterTypeStr config.filterType).length ≤ 15 := by
    cases config.filterType <;> decide
  have hlast : ∀ e : Elements, e = (if pipelineId ≥ 0 then
      .leaf (ascii "pipeline_id") (.i32 (BitVec.ofInt 32 pipelineId)) .nil else .nil) →
      e.bytes.length ≤ 17 := by
    rintro e rfl
    split_ifs
    · exact le_rfl
    · exact Nat.zero_le _
  have hnames : (ascii "device_session_id").length = 17 ∧ (ascii "offset_mode").length = 11 ∧
      (ascii "interpolation_mode").length = 18 ∧ (ascii "filter_mode").length = 11 ∧
      (ascii "filter_parameter").length = 16 := by decide
  obtain ⟨h₁, h₂, h₃, h₄, h₅⟩ := hnames
  have hrest := hlast _ rfl
  rw [configureFields]
  simp only [Elements.bytes, List.length_append, length_header, Leaf.length_bytes_i32,
    Leaf.length_bytes_string, Leaf.length_bytes_double, h₁, h₂, h₃, h₄, h₅]
  omega

/-- **The bytes of a request**, on a platform whose vectors do not grow too far. -/
theorem configureRequest_eq {platform : Platform} (hgrow : platform.GrowsWithin 246)
    (device : UInt16) (pipelineId : ℤ) (cmdId : BitVec 32) (config : PipelineConfig) :
    configureRequest platform device pipelineId cmdId config
      = .ok (document (encoding (ascii "ffb") (ascii "configure_pipeline")
        (configureFields device pipelineId config) cmdId).bytes) := by
  have hservice : (ascii "ffb").length = 3 := by decide
  have hcommand : (ascii "configure_pipeline").length = 18 := by decide
  have hlength := length_configureFields device pipelineId config
  refine finalized_eq (addsFields_configure device pipelineId config) hgrow (by decide) (by decide)
    _ _ cmdId ?_
  rw [length_encoding, hservice, hcommand]
  omega

/-! ### Different requests -/

theorem offsetTypeStr_inj {a b : OffsetType} (h : offsetTypeStr a = offsetTypeStr b) : a = b := by
  cases a <;> cases b <;> first | rfl | exact absurd h (by decide)

theorem interpolationTypeStr_inj {a b : InterpolationType}
    (h : interpolationTypeStr a = interpolationTypeStr b) : a = b := by
  cases a <;> cases b <;> first | rfl | exact absurd h (by decide)

theorem filterTypeStr_inj {a b : FilterType} (h : filterTypeStr a = filterTypeStr b) : a = b := by
  cases a <;> cases b <;> first | rfl | exact absurd h (by decide)

/-- The bits of a double that comes from a float. -/
theorem toNat_doubleOfFloat {x : BitVec 32} (h : IsNumber x) :
    (doubleOfFloat x).toNat = binary64.pack (widen binary32 binary64 (binary32.unpack x.toNat)) := by
  have hsign : (widen binary32 binary64 (binary32.unpack x.toNat)).sign ≤ 1 := by
    rw [sign_widen]
    show x.toNat / 2 ^ 23 / 2 ^ 8 ≤ 1
    have hlt := x.isLt
    omega
  have hwidth : binary64.exponentBits + binary64.fractionBits + 1 = 64 := by decide
  have hlt := pack_lt (fits_widen wider_double (fits_unpack binary32 x.toNat) h) hsign
  rw [hwidth] at hlt
  rw [doubleOfFloat, BitVec.toNat_ofNat, Nat.mod_eq_of_lt hlt]

/-- **Different floats are different doubles.** -/
theorem doubleOfFloat_inj {x y : BitVec 32} (hx : IsNumber x) (hy : IsNumber y)
    (h : doubleOfFloat x = doubleOfFloat y) : x = y := by
  have hpack := congrArg BitVec.toNat h
  rw [toNat_doubleOfFloat hx, toNat_doubleOfFloat hy] at hpack
  have hwiden := pack_inj (fits_widen wider_double (fits_unpack binary32 _) hx)
    (fits_widen wider_double (fits_unpack binary32 _) hy) hpack
  exact BitVec.eq_of_toNat_eq (unpack_inj
    (widen_inj wider_double (fits_unpack binary32 _) (fits_unpack binary32 _) hx hy hwiden))

/-- The fields of a request tell everything but the gain. -/
theorem configureFields_eq_iff (hnumbers : config.Numbers) (hnumbers' : config'.Numbers) :
    configureFields device pipelineId config = configureFields device pipelineId config' ↔
      config = { config' with gain := config.gain } := by
  constructor
  · intro h
    simp only [configureFields, Elements.leaf.injEq, Leaf.string.injEq, Leaf.double.injEq, true_and,
      and_true] at h
    obtain ⟨hoffset, hinterpolation, hfilter, hparameter⟩ := h
    have hoffset' := offsetTypeStr_inj hoffset
    have hinterpolation' := interpolationTypeStr_inj hinterpolation
    have hfilter' := filterTypeStr_inj hfilter
    have hparameter' :=
      doubleOfFloat_inj hnumbers.filterParameter hnumbers'.filterParameter hparameter
    cases config
    cases config'
    simp_all
  · intro h
    rw [h]
    rfl

theorem cleanKeys_encoding (device : UInt16) (pipelineId : ℤ) (cmdId : BitVec 32)
    (config : PipelineConfig) : (encoding (ascii "ffb") (ascii "configure_pipeline")
      (configureFields device pipelineId config) cmdId).CleanKeys := by
  have hlast : (if pipelineId ≥ 0 then
      Elements.leaf (ascii "pipeline_id") (.i32 (BitVec.ofInt 32 pipelineId)) .nil
        else .nil).CleanKeys := by
    split_ifs
    · exact ⟨by decide, trivial⟩
    · trivial
  exact ⟨by decide, by decide, by decide, ⟨by decide, ⟨by decide, by decide, by decide, by decide,
    by decide, hlast⟩, trivial⟩, by decide, trivial⟩

theorem encoding_inj {service command : List UInt8} {body body' : Elements} {cmdId : BitVec 32}
    (h : encoding service command body cmdId = encoding service command body' cmdId) :
    body = body' := by
  simp only [encoding, Elements.leaf.injEq, Elements.sub.injEq, and_true, true_and] at h
  exact h

/-- **Two configurations make different requests exactly when they differ in more than the gain.** -/
theorem configureRequest_ne_iff {platform : Platform} (hgrow : platform.GrowsWithin 246)
    (device : UInt16) (pipelineId : ℤ) (cmdId : BitVec 32) {config config' : PipelineConfig}
    (hnumbers : config.Numbers) (hnumbers' : config'.Numbers) :
    configureRequest platform device pipelineId cmdId config
        ≠ configureRequest platform device pipelineId cmdId config' ↔
      config ≠ { config' with gain := config.gain } := by
  rw [configureRequest_eq hgrow, configureRequest_eq hgrow, ne_eq, ne_eq, not_iff_not,
    ← configureFields_eq_iff hnumbers hnumbers']
  constructor
  · intro h
    have hsize : ∀ config : PipelineConfig, (document (encoding (ascii "ffb")
        (ascii "configure_pipeline") (configureFields device pipelineId config) cmdId).bytes).length
        < 4294967296 := by
      intro config
      have hlength := length_configureFields device pipelineId config
      have hservice : (ascii "ffb").length = 3 := by decide
      have hcommand : (ascii "configure_pipeline").length = 18 := by decide
      rw [length_encoding, hservice, hcommand]
      omega
    have hdocument := congrArg (· ++ ([] : List UInt8)) (Except.ok.inj h)
    obtain ⟨hbytes, -⟩ := document_append_inj (hsize config) (hsize config') hdocument
    have hencoding := Elements.bytes_inj (cleanKeys_encoding device pipelineId cmdId config)
      (cleanKeys_encoding device pipelineId cmdId config')
      ((hsize config).trans_le' (by rw [length_document]; omega)) hbytes
    exact encoding_inj hencoding
  · intro h
    rw [h]

/-- A low-pass filter at 1 Hz and at 2 Hz. -/
theorem configureRequest_ne_filter :
    configureRequest .tight 7 (-1) 1
        { offsetType := .torqueNm, filterType := .lowPass, filterParameter := 0x3F800000 }
      ≠ configureRequest .tight 7 (-1) 1
        { offsetType := .torqueNm, filterType := .lowPass, filterParameter := 0x40000000 } :=
  (configureRequest_ne_iff (Platform.growsWithin_tight (by decide)) 7 (-1) 1
    ⟨by decide, by decide⟩ ⟨by decide, by decide⟩).mpr (by decide)

/-- Effects with a gain of 1 and of 2 are configured by the same request. -/
theorem not_configureRequest_ne : ¬ ∀ (platform : Platform) (device : UInt16) (pipelineId : ℤ)
    (cmdId : BitVec 32) (config config' : PipelineConfig), platform.GrowsWithin 246 →
    config.Numbers → config'.Numbers → config ≠ config' →
    configureRequest platform device pipelineId cmdId config
      ≠ configureRequest platform device pipelineId cmdId config' := by
  intro h
  exact h .tight 7 (-1) 1 { offsetType := .torqueNm }
    { offsetType := .torqueNm, gain := 0x40000000 } (Platform.growsWithin_tight (by decide))
    ⟨by decide, by decide⟩ ⟨by decide, by decide⟩ (by decide) rfl

end Configure

end ScApi
