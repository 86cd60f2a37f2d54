import Runnerctl.Metatheory.Configuration
import Runnerctl.Model.Framing

/-!
# Framing is exact

A request arrives as it was sent if its line fits, in whatever pieces it comes, and no other
line is taken for a request: neither one that was cut off by a closed connection nor one that
was cut off by the limit.
-/

namespace Runnerctl

open Streams

/-- Space after the JSON text of a request is skipped. -/
def Json.SkipsNewline (json : Json) : Prop :=
  ∀ text request, json.decode text = .ok request → json.decode (text ++ "\n") = .ok request

/-- The request is encoded in one line, and decoded from it. -/
structure Json.Transmits (json : Json) (request : Request) : Prop where
  oneLine : '\n' ∉ (json.encode request).toList
  decode : json.decode (json.encode request) = .ok request

section Framing

variable {json : Json} {connection : Connection} {request : Request} {bytes : List UInt8}

theorem newline_mem_encode {text : String} : 10 ∈ Utf8.encode text ↔ '\n' ∈ text.toList :=
  Utf8.mem_encode (by decide : '\n'.toNat < 128)

theorem encode_newline : Utf8.encode "\n" = [10] := rfl

theorem Json.frame_eq (json : Json) (request : Request) :
    json.frame request = Utf8.encode (json.encode request) ++ [10] := by
  rw [Json.frame, Utf8.encode_append, encode_newline]

/-- A line over the limit is rejected, whether or not the limit has cut it. -/
theorem acceptLine_of_large (large : 1024 * 1024 < bytes.length) :
    ∃ e, acceptLine json bytes = .error e := by
  rw [acceptLine, readLine]
  cases read : Utf8.decode bytes with
  | none => exact ⟨_, rfl⟩
  | some line =>
      have size : ¬line.utf8ByteSize ≤ 1024 * 1024 := by
        rw [← Utf8.length_encode, Utf8.encode_of_decode read]
        exact Nat.not_le_of_lt large
      refine ⟨.msg "request too large or incomplete", ?_⟩
      rw [Program.ok_bind, decide_eq_false size, Bool.false_and]
      rfl

/-- What is accepted is a whole line within the limit. -/
theorem acceptLine_eq_ok (accepted : acceptLine json bytes = .ok request) :
    ∃ line : String, bytes = Utf8.encode (line ++ "\n") ∧
      (line ++ "\n").utf8ByteSize ≤ 1024 * 1024 ∧ json.decode (line ++ "\n") = .ok request := by
  rw [acceptLine, readLine] at accepted
  cases read : Utf8.decode bytes with
  | none =>
      rw [read] at accepted
      cases accepted
  | some text =>
      rw [read, Program.ok_bind, Program.bind_eq_ok_iff] at accepted
      obtain ⟨_, checked, decoded⟩ := accepted
      rw [check_eq_ok_iff, Bool.and_eq_true, decide_eq_true_eq, beq_iff_eq] at checked
      obtain ⟨small, ends⟩ := checked
      obtain ⟨line, same⟩ := List.getLast?_eq_some_iff.mp ends
      have whole : text = String.ofList line ++ "\n" := String.toList_injective (by simp [same])
      subst whole
      exact ⟨String.ofList line, (Utf8.encode_of_decode read).symm, small, decoded⟩

theorem acceptLine_frame (skips : json.SkipsNewline) (transmits : json.Transmits request)
    (small : (json.frame request).length ≤ 1024 * 1024) :
    acceptLine json (json.frame request) = .ok request := by
  rw [Json.frame, Utf8.length_encode] at small
  have ends : (json.encode request ++ "\n").toList.getLast? = some '\n' := by simp
  rw [acceptLine, readLine, Json.frame, Utf8.decode_encode, Program.ok_bind,
    decide_eq_true small, ends, skips _ _ transmits.decode]
  rfl

theorem Json.Transmits.absent (transmits : json.Transmits request) :
    10 ∉ Utf8.encode (json.encode request) :=
  mt newline_mem_encode.mp transmits.oneLine

/-- A request whose frame fits is returned, whatever follows it. -/
theorem readRequest_frame (skips : json.SkipsNewline) (transmits : json.Transmits request)
    {more : List UInt8} (arrived : connection.pieces.flatten = json.frame request ++ more)
    (small : (json.frame request).length ≤ 1024 * 1024) :
    readRequest json connection = some (.ok request) := by
  have frame := json.frame_eq request
  have short : (Utf8.encode (json.encode request)).length < 1024 * 1024 + 1 := by
    rw [frame, List.length_append] at small
    exact Nat.lt_succ_of_le (Nat.le_of_add_right_le small)
  rw [frame, List.append_assoc] at arrived
  rw [readRequest, readUntil_line (by decide) arrived transmits.absent short, ← frame,
    Option.map_some, acceptLine_frame skips transmits small]

/-- A request whose frame does not fit is rejected. -/
theorem readRequest_of_large (transmits : json.Transmits request) {more : List UInt8}
    (arrived : connection.pieces.flatten = json.frame request ++ more)
    (large : 1024 * 1024 < (json.frame request).length) :
    ∃ e, readRequest json connection = some (.error e) := by
  have frame := json.frame_eq request
  rw [frame, List.append_assoc] at arrived
  have size : (json.frame request).length = (Utf8.encode (json.encode request)).length + 1 := by
    rw [frame, List.length_append]
    rfl
  by_cases short : (Utf8.encode (json.encode request)).length < 1024 * 1024 + 1
  · -- the newline is the first byte over the limit
    obtain ⟨e, rejected⟩ := @acceptLine_of_large json _ large
    refine ⟨e, ?_⟩
    rw [readRequest, readUntil_line (by decide) arrived transmits.absent short, ← frame,
      Option.map_some, rejected]
  · have cut : connection.pieces.flatten.take (1024 * 1024 + 1) =
        (Utf8.encode (json.encode request)).take (1024 * 1024 + 1) := by
      rw [arrived, List.take_append_of_le_length (Nat.le_of_not_lt short)]
    have absent : 10 ∉ connection.pieces.flatten.take (1024 * 1024 + 1) := by
      rw [cut]
      exact fun member => transmits.absent (List.mem_of_mem_take member)
    have long : 1024 * 1024 + 1 ≤ connection.pieces.flatten.length := by
      rw [arrived, List.length_append]
      omega
    have full : 1024 * 1024 < (connection.pieces.flatten.take (1024 * 1024 + 1)).length := by
      rw [List.length_take, Nat.min_eq_left long]
      exact Nat.lt_succ_self _
    obtain ⟨e, rejected⟩ := @acceptLine_of_large json _ full
    refine ⟨e, ?_⟩
    rw [readRequest, readUntil_cut (by decide) absent long, Option.map_some, rejected]

/-- What is returned is the first line of what has arrived. -/
theorem readRequest_eq_ok (returned : readRequest json connection = some (.ok request)) :
    ∃ (line : String) (more : List UInt8),
      connection.pieces.flatten = Utf8.encode (line ++ "\n") ++ more ∧
      '\n' ∉ line.toList ∧ (line ++ "\n").utf8ByteSize ≤ 1024 * 1024 ∧
      json.decode (line ++ "\n") = .ok request := by
  obtain ⟨bytes, read, accepted⟩ := Option.map_eq_some_iff.mp returned
  obtain ⟨line, rfl, small, decoded⟩ := acceptLine_eq_ok accepted
  obtain ⟨before, more, same, absent, arrived⟩ :=
    exists_line (by decide) read (by simp [encode_newline])
  refine ⟨line, more, arrived, ?_, small, decoded⟩
  rw [Utf8.encode_append, encode_newline] at same
  rw [← newline_mem_encode, (List.append_inj_left' same rfl)]
  exact absent

/-- A connection is waited for only while it is open, its line goes on and the limit is not
reached. -/
theorem readRequest_eq_none_iff :
    readRequest json connection = none ↔
      connection.closed = false ∧ 10 ∉ connection.pieces.flatten ∧
        connection.pieces.flatten.length ≤ 1024 * 1024 := by
  rw [readRequest, Option.map_eq_none_iff, readUntil_eq (by decide)]
  split
  · next seen =>
    exact ⟨nofun, fun ⟨_, absent, _⟩ => (absent (List.mem_of_mem_take seen)).elim⟩
  · next absent =>
    split
    · next stops =>
      refine ⟨nofun, fun ⟨isOpen, _, short⟩ => ?_⟩
      obtain long | closed := stops
      · exact (Nat.not_succ_le_self _ (long.trans short)).elim
      · rw [isOpen] at closed
        cases closed
    · next goesOn =>
      have short : connection.pieces.flatten.length ≤ 1024 * 1024 :=
        Nat.le_of_lt_succ (Nat.lt_of_not_le fun long => goesOn (.inl long))
      have isOpen : connection.closed = false :=
        Bool.eq_false_iff.mpr fun closed => goesOn (.inr closed)
      rw [List.take_of_length_le (Nat.le_succ_of_le short)] at absent
      exact ⟨fun _ => ⟨isOpen, absent, short⟩, fun _ => rfl⟩

end Framing

/-- A request is read as it was sent if its frame has at most 1 MiB, and rejected if it has
more; and whatever is read as a request is the first line of what has arrived, with its
newline and of at most 1 MiB. -/
theorem request_framing (json : Json) :
    (∀ request, json.Transmits request → ∀ (connection : Connection) (more : List UInt8),
      connection.pieces.flatten = json.frame request ++ more →
      (json.SkipsNewline → (json.frame request).length ≤ 1048576 →
        readRequest json connection = some (.ok request)) ∧
      (1048576 < (json.frame request).length →
        ∃ e, readRequest json connection = some (.error e))) ∧
    ∀ (connection : Connection) (request : Request),
      readRequest json connection = some (.ok request) →
      ∃ (line : String) (more : List UInt8),
        connection.pieces.flatten = Utf8.encode (line ++ "\n") ++ more ∧
        '\n' ∉ line.toList ∧ (line ++ "\n").utf8ByteSize ≤ 1048576 ∧
        json.decode (line ++ "\n") = .ok request :=
  ⟨fun _ transmits _ _ arrived => ⟨fun skips => readRequest_frame skips transmits arrived,
    readRequest_of_large transmits arrived⟩, fun _ _ => readRequest_eq_ok⟩

/-- The JSON of the request that has no fields. -/
def doctorJson : Json where
  encode _ := "\x7b\"command\":\"doctor\"\x7d"
  decode text :=
    if text.toList.rdropWhile (· == '\n') = "\x7b\"command\":\"doctor\"\x7d".toList then
      .ok .doctor
    else .error (.msg "expected value")

theorem doctorJson_skipsNewline : doctorJson.SkipsNewline := by
  intro text request decoded
  have dropped : (text ++ "\n").toList.rdropWhile (· == '\n') =
      text.toList.rdropWhile (· == '\n') := by
    rw [String.toList_append]
    exact List.rdropWhile_concat_pos _ _ _ rfl
  simp only [doctorJson, dropped]
  exact decoded

theorem doctorJson_transmits : doctorJson.Transmits .doctor where
  oneLine := by decide
  decode := by decide

/-- The request arrives in two pieces. -/
theorem request_framing_doctor :
    readRequest doctorJson
        ⟨[(doctorJson.frame .doctor).take 7, (doctorJson.frame .doctor).drop 7], false⟩ =
      some (.ok .doctor) :=
  ((request_framing doctorJson).1 .doctor doctorJson_transmits _ [] (by simp)).1
    doctorJson_skipsNewline (by rw [Json.frame, Utf8.length_encode]; decide)

end Runnerctl
