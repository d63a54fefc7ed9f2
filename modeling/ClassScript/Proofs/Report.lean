import ClassScript.Proofs.Cbor.Values
import ClassScript.Report

/-!
# Reports are read back

Whatever codec writes and reads reports, as long as it keeps what its documentation promises: a
written report is read back as it was, unless it has more problems than the codec reads. Whether or
not it is read back, it is self-delimiting: neither a part of it nor more than it is a report.
-/

namespace ClassScript

open Cbor

namespace Report

/-! ### What a codec is told -/

/-- A report consists of the values of its fields. -/
theorem ofValue_value (r : Report) : ofValue r.value = r := by
  obtain ⟨source, diagnostics, hadStaticError, hadRuntimeError, exitCode, session⟩ := r
  have hdiagnostic (d : Diagnostic) : Diagnostic.ofValue d.value = d := rfl
  cases diagnostics with
  | none => rfl
  | some ds =>
    have hds : (ds.map Diagnostic.value).map Diagnostic.ofValue = ds := by
      rw [List.map_map]
      exact (List.map_congr_left fun d _ => hdiagnostic d).trans (List.map_id ds)
    rw [value, ofValue, Option.map_some, Option.map_some, hds]

/-- A codec may be told about reports. -/
theorem isProper_shape : shape.isProper = true := by decide

/-- There are few enough fields, and few enough records inside each other, for any codec. -/
theorem isWithin_shape : shape.isWithin 16 4 = true := by decide

/-- The number of problems. -/
def count (r : Report) : Nat := r.diagnostics.elim 0 List.length

end Report

/-- The lengths of the texts fit in 64 bits. -/
structure Diagnostic.Sized (d : Diagnostic) : Prop where
  lexeme : d.lexeme.utf8ByteSize ≤ mostBytes
  message : d.message.utf8ByteSize ≤ mostBytes

namespace Report

/-- The lengths of the texts and of the list of problems fit in 64 bits. -/
structure Sized (r : Report) : Prop where
  source : r.source.utf8ByteSize ≤ mostBytes
  session : r.session.utf8ByteSize ≤ mostBytes
  count : r.count ≤ mostBytes
  diagnostics : ∀ ds, r.diagnostics = some ds → ∀ d ∈ ds, d.Sized

variable {codec : Codec} {limits : Limits} {r : Report}

/-- The problems are the only list of a report. -/
theorem Sized.fits (hr : r.Sized) {most : Nat} (hcount : r.count ≤ most) :
    shape.Fits mostBytes most r.value := by
  obtain ⟨source, diagnostics, hadStaticError, hadRuntimeError, exitCode, session⟩ := r
  refine ⟨hr.source, ?_, trivial, trivial, trivial, hr.session, trivial⟩
  cases diagnostics with
  | none => trivial
  | some ds =>
    refine ⟨by rwa [List.length_map], fun x hx => ?_⟩
    obtain ⟨d, hd, rfl⟩ := List.mem_map.1 hx
    obtain ⟨hlexeme, hmessage⟩ := hr.diagnostics ds rfl d hd
    exact ⟨trivial, trivial, trivial, hlexeme, hmessage, trivial, trivial⟩

/-! ### Writing -/

/-- The bytes of a report are its canonical form. -/
theorem encode_eq (h : codec.Spec limits) (hr : r.Sized) :
    r.encode codec = .ok (shape.canonical r.value) :=
  h.marshal shape r.value isProper_shape (hr.fits hr.count)

/-- The canonical form of a report is data. -/
theorem data_canonical (hr : r.Sized) :
    Data (shape.canonical r.value) (shape.item r.value) :=
  shape.data_canonical isProper_shape r.value (hr.fits hr.count)

/-! ### Reading -/

/-- What a codec reads a report from is a single item, and it has no more problems than the codec
reads. -/
theorem decode_eq_ok (h : codec.Spec limits) {bytes : List UInt8} {r' : Report}
    (hread : decode codec bytes = .ok r') :
    ∃ item, Data bytes item ∧ Bounded limits.elements [item] := by
  rw [decode] at hread
  split at hread
  · next x hx => exact h.whole shape bytes x hx
  · cases hread

/-- A report with as many problems as a codec reads is read back. -/
theorem decode_canonical (h : codec.Spec limits) (hr : r.Sized)
    (hcount : r.count ≤ limits.elements) : decode codec (shape.canonical r.value) = .ok r := by
  have hwithin : (shape.item r.value).Within limits.elements limits.levels :=
    (shape.within_item limits.sixteen_le 4 isWithin_shape r.value (hr.fits hcount)).mono
      (Nat.le_refl _) limits.four_le
  rw [decode, h.unmarshal shape _ _ r.value isProper_shape (data_canonical hr) hwithin
    (shape.stands_item isProper_shape r.value)]
  exact congrArg Except.ok (ofValue_value r)

/-- The problems of a report are one of the items inside its item. -/
theorem item_diagnostics_mem (r : Report) :
    (Shape.list Diagnostic.shape).item (r.diagnostics.map (·.map Diagnostic.value)) ∈
      alternating ((Fields.entries _ r.value).map fun e => (.unsigned e.1, e.2)) := by
  have hfield := Fields.mem_entries_head 2 (.list Diagnostic.shape)
    (.field 3 false .flag <| .field 4 false .flag <| .field 5 false .int <|
      .field 6 true .text .none)
    (r.diagnostics.map (·.map Diagnostic.value))
    (r.hadStaticError, r.hadRuntimeError, r.exitCode, r.session, ())
  exact mem_alternating (Fields.mem_entries_tail 1 true .text r.source hfield)

/-- Items with more problems than a limit are not within it. -/
theorem count_le_of_bounded {most : Nat} (h : Bounded most [shape.item r.value]) :
    r.count ≤ most := by
  obtain ⟨levels, hwithin⟩ := h
  have hitem := hwithin _ (List.mem_singleton_self _)
  cases hitem with
  | map _ hall =>
    have hdiagnostics := hall _ (item_diagnostics_mem r)
    rw [count]
    -- A missing list counts as no problems.
    cases hds : r.diagnostics with
    | none => exact Nat.zero_le most
    | some ds =>
      rw [hds] at hdiagnostics
      cases hdiagnostics with
      | array hlength _ => simpa using hlength

/-- A report with more problems than a codec reads is not read back. -/
theorem decode_of_many (h : codec.Spec limits) (hr : r.Sized) (hcount : limits.elements < r.count)
    {r' : Report} : decode codec (shape.canonical r.value) ≠ .ok r' := by
  intro hread
  obtain ⟨item, hdata, hbounded⟩ := decode_eq_ok h hread
  obtain ⟨-, -, rfl⟩ := hdata.unique (data_canonical hr) (congrArg (· ++ []) rfl)
  exact Nat.not_lt_of_le (count_le_of_bounded hbounded) hcount

/-- Bytes that share their start with a report, and that are read, are the bytes of the report. -/
theorem eq_of_decode (h : codec.Spec limits) (hr : r.Sized) {bytes more more' : List UInt8}
    {r' : Report} (hread : decode codec bytes = .ok r')
    (heq : bytes ++ more = shape.canonical r.value ++ more') : more = more' := by
  obtain ⟨item, hdata, -⟩ := decode_eq_ok h hread
  exact (hdata.unique (data_canonical hr) heq).2.1

/-! ### Round trips -/

/-- What is not read as a report is refused with a reason. -/
theorem exists_error {bytes : List UInt8} (h : ∀ r', decode codec bytes ≠ .ok r') :
    ∃ reason, decode codec bytes = .error reason := by
  cases hread : decode codec bytes with
  | ok r' => exact absurd hread (h r')
  | error reason => exact ⟨reason, rfl⟩

/-- A written report is read back, unless it has more problems than the codec reads. Neither a part
of it nor more than it is a report. -/
theorem encode_round_trips (h : codec.Spec limits) (hr : r.Sized) :
    ∃ bytes, r.encode codec = .ok bytes ∧
      (r.count ≤ limits.elements → decode codec bytes = .ok r) ∧
      (limits.elements < r.count → ∃ reason, decode codec bytes = .error reason) ∧
      (∀ part more, part ++ more = bytes → more ≠ [] →
        ∃ reason, decode codec part = .error reason) ∧
      ∀ more ≠ [], ∃ reason, decode codec (bytes ++ more) = .error reason := by
  refine ⟨_, encode_eq h hr, decode_canonical h hr, fun hcount => ?_, fun part more heq hmore => ?_,
    fun more hmore => ?_⟩
  · exact exists_error fun r' => decode_of_many h hr hcount
  · refine exists_error fun r' hread => hmore ?_
    exact eq_of_decode h hr hread (heq.trans (List.append_nil _).symm)
  · refine exists_error fun r' hread => hmore ?_
    exact (eq_of_decode h hr hread (List.append_nil _)).symm

/-- A report of a problem in the types, with the plain codec. -/
theorem encode_round_trips_one :
    let r : Report :=
      { source := "x.ks"
        diagnostics := some [{ kind := .type, line := 1, column := 2, message := "m" }]
        hadStaticError := true
        exitCode := 65 }
    ∃ bytes, Codec.plain.Spec {} ∧ r.Sized ∧ r.encode .plain = .ok bytes ∧
      decode .plain bytes = .ok r ∧
      (∃ reason, decode .plain bytes.dropLast = .error reason) ∧
      ∃ reason, decode .plain (bytes ++ [0]) = .error reason := by
  intro r
  have hsized : r.Sized := by
    refine ⟨by decide, by decide, by decide, fun ds hds d hd => ?_⟩
    cases hds
    obtain rfl := List.mem_singleton.1 hd
    exact ⟨by decide, by decide⟩
  obtain ⟨bytes, hencode, hread, -, hpart, hmore⟩ := encode_round_trips Codec.plain_spec hsized
  -- There is a last byte to leave out.
  have hne : bytes ≠ [] := by
    cases (encode_eq Codec.plain_spec hsized).symm.trans hencode
    exact (data_canonical hsized).ne_nil
  exact ⟨bytes, Codec.plain_spec, hsized, hencode, hread (by decide),
    hpart _ _ (List.dropLast_concat_getLast hne) (List.cons_ne_nil _ _),
    hmore [0] (List.cons_ne_nil _ _)⟩

/-- There are codecs that keep their promises, and with none of them every report is read back: one
problem more than a list may have elements is too many. -/
theorem encode_of_many_unreadable : (∃ codec : Codec, codec.Spec {}) ∧
    ∀ codec : Codec, codec.Spec {} → ¬∀ r : Report, r.Sized →
      ∃ bytes, r.encode codec = .ok bytes ∧ decode codec bytes = .ok r := by
  refine ⟨⟨_, Codec.plain_spec⟩, fun codec h hall => ?_⟩
  -- A report with more problems than the limit is encoded, and not decoded.
  have hfails (n : Nat) (hn : ({} : Limits).elements < n) (hsize : n ≤ mostBytes) : False := by
    let r : Report := { diagnostics := some (List.replicate n {}) }
    have hcount : r.count = n := List.length_replicate
    have hempty : "".utf8ByteSize ≤ mostBytes := by decide
    have hsized : r.Sized := by
      refine ⟨hempty, hempty, by rwa [hcount], fun ds hds d hd => ?_⟩
      cases hds
      obtain rfl := List.eq_of_mem_replicate hd
      exact ⟨by decide, by decide⟩
    obtain ⟨bytes, hencode, hread⟩ := hall r hsized
    rw [encode_eq h hsized] at hencode
    cases hencode
    exact decode_of_many h hsized (by rwa [hcount]) hread
  exact hfails (131072 + 1) (Nat.lt_succ_self _) (by decide)

end Report

end ClassScript
