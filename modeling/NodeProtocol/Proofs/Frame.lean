import Mathlib.Data.List.Basic
import NodeProtocol.Frame

namespace NodeProtocol

/-! ## Splitting -/

namespace BytesOf

variable {length : Nat} {bytes rest : Bytes}

theorem split?_append (front : BytesOf length) (rest : Bytes) :
    split? length (front.val ++ rest) = some (front, rest) := by
  obtain ⟨front, rfl⟩ := front
  rw [split?, dif_pos (by simp)]
  simp

theorem append_of_split? {front : BytesOf length} (h : split? length bytes = some (front, rest)) :
    front.val ++ rest = bytes := by
  rw [split?] at h
  split at h
  · cases h
    exact List.take_append_drop length bytes
  · cases h

theorem split?_eq_none_iff : split? length bytes = none ↔ bytes.length < length := by
  rw [split?]
  split
  case isTrue long => simp [long]
  case isFalse short => simpa using short

end BytesOf

/-! ## Flag, hash and body -/

def CutShort (flagAt : Nat) (raw : Bytes) : Prop :=
  raw.length < flagAt + 1 ∨ raw[flagAt]? ≠ some 0 ∧ raw.length < flagAt + 1 + hashLength

instance (flagAt : Nat) (raw : Bytes) : Decidable (CutShort flagAt raw) :=
  inferInstanceAs (Decidable (_ ∨ _))

def plainFlag (flagAt : Nat) (raw : Bytes) : Bytes :=
  raw.modify flagAt fun flag => if flag = 0 then 0 else 1

def readTail? : Bytes → Option (Option Hash × Bytes)
  | [] => none
  | flag :: rest =>
    if flag = 0 then some (none, rest)
    else (BytesOf.split? 8 rest).map fun (hash, body) => (some hash, body)

variable {raw tail body : Bytes} {hash : Option Hash} {byte : UInt8} {n : Nat}

theorem cutShort_cons : CutShort (n + 1) (byte :: raw) ↔ CutShort n raw := by
  have flag : raw.length + 1 < n + 1 + 1 ↔ raw.length < n + 1 := by omega
  have hash : raw.length + 1 < n + 1 + 1 + hashLength ↔ raw.length < n + 1 + hashLength := by omega
  rw [CutShort, CutShort, List.length_cons, List.getElem?_cons_succ, flag, hash]

theorem plainFlag_cons : plainFlag (n + 1) (byte :: raw) = byte :: plainFlag n raw :=
  List.modify_succ_cons ..

theorem readTail?_encodeHash (hash : Option Hash) (body : Bytes) :
    readTail? (encodeHash hash ++ body) = some (hash, body) := by
  cases hash with
  | none => rfl
  | some hash =>
      change (BytesOf.split? 8 (hash.val ++ body)).map _ = _
      rw [BytesOf.split?_append]
      rfl

theorem readTail?_eq_none_iff : readTail? tail = none ↔ CutShort 0 tail := by
  cases tail with
  | nil => simp [readTail?, CutShort]
  | cons flag rest =>
      rw [readTail?]
      split
      case isTrue unset => simp [CutShort, unset]
      case isFalse set =>
        rw [Option.map_eq_none_iff, BytesOf.split?_eq_none_iff]
        simp [CutShort, set, hashLength]
        omega

theorem encodeHash_of_readTail? (h : readTail? tail = some (hash, body)) :
    encodeHash hash ++ body = plainFlag 0 tail := by
  cases tail with
  | nil => cases h
  | cons flag rest =>
      rw [readTail?] at h
      split at h
      case isTrue unset =>
        cases h
        simp [plainFlag, unset, encodeHash]
      case isFalse set =>
        obtain ⟨⟨front, body⟩, divided, same⟩ := Option.map_eq_some_iff.mp h
        cases same
        rw [encodeHash, List.cons_append, BytesOf.append_of_split? divided]
        simp [plainFlag, set]

theorem exists_readTail? (h : ¬ CutShort 0 tail) :
    ∃ hash body, readTail? tail = some (hash, body) := by
  obtain ⟨⟨hash, body⟩, reads⟩ :=
    Option.ne_none_iff_exists'.mp (mt readTail?_eq_none_iff.mp h)
  exact ⟨hash, body, reads⟩

/-! ## Requests -/

namespace Request

theorem parse_cons (version service function : UInt8) (tail : Bytes) :
    parse (version :: service :: function :: tail) =
      match readTail? tail with
      | some (hash, body) => .ok ⟨⟨version, service, function, hash⟩, body⟩
      | none => .error (.truncated (if tail.length + 3 < 4 then 4 else 12) (tail.length + 3)) := by
  cases tail with
  | nil => rfl
  | cons flag rest =>
      rw [parse, readTail?]
      split
      case isTrue => rfl
      case isFalse => cases BytesOf.split? 8 rest <;> rfl

theorem parse_encode (request : Request) : parse request.encode = .ok request := by
  obtain ⟨⟨version, service, function, hash⟩, body⟩ := request
  change parse (version :: service :: function :: (encodeHash hash ++ body)) = _
  rw [parse_cons, readTail?_encodeHash]

theorem parse_of_cutShort (h : CutShort 3 raw) :
    parse raw = .error (.truncated (if raw.length < 4 then 4 else 12) raw.length) := by
  match raw with
  | [] | [_] | [_, _] => rfl
  | version :: service :: function :: tail =>
      simp only [cutShort_cons] at h
      rw [parse_cons, readTail?_eq_none_iff.mpr h]
      rfl

theorem encode_parse (h : ¬ CutShort 3 raw) :
    ∃ request, parse raw = .ok request ∧ request.encode = plainFlag 3 raw := by
  match raw with
  | [] | [_] | [_, _] => exact absurd (.inl (by simp)) h
  | version :: service :: function :: tail =>
      simp only [cutShort_cons] at h
      obtain ⟨hash, body, reads⟩ := exists_readTail? h
      refine ⟨⟨⟨version, service, function, hash⟩, body⟩, by rw [parse_cons, reads], ?_⟩
      rw [plainFlag_cons, plainFlag_cons, plainFlag_cons, ← encodeHash_of_readTail? reads]
      rfl

end Request

/-! ## Responses -/

namespace Response

variable {version service : UInt8}

theorem parse_cons (version service : UInt8) (tail : Bytes) :
    parse (version :: service :: tail) =
      ((readTail? tail).map fun (hash, body) => ⟨version, service, hash, body⟩).getD empty := by
  cases tail with
  | nil => rfl
  | cons flag rest =>
      rw [parse, readTail?]
      split
      case isTrue => rfl
      case isFalse => cases BytesOf.split? 8 rest <;> rfl

theorem parse_encode (response : Response) : parse response.encode = response := by
  obtain ⟨version, service, hash, body⟩ := response
  change parse (version :: service :: (encodeHash hash ++ body)) = _
  rw [parse_cons, readTail?_encodeHash]
  rfl

theorem parse_of_cutShort (h : CutShort 2 raw) : parse raw = empty := by
  match raw with
  | [] | [_] => rfl
  | version :: service :: tail =>
      simp only [cutShort_cons] at h
      rw [parse_cons, readTail?_eq_none_iff.mpr h]
      rfl

theorem encode_parse (h : ¬ CutShort 2 raw) : (parse raw).encode = plainFlag 2 raw := by
  match raw with
  | [] | [_] => exact absurd (.inl (by simp)) h
  | version :: service :: tail =>
      simp only [cutShort_cons] at h
      obtain ⟨hash, body, reads⟩ := exists_readTail? h
      rw [parse_cons, reads, plainFlag_cons, plainFlag_cons, ← encodeHash_of_readTail? reads]
      rfl

end Response

/-! ## Both ways -/

theorem frames_inverse :
    (∀ request : Request, Request.parse request.encode = .ok request) ∧
    (∀ raw, CutShort 3 raw →
      Request.parse raw = .error (.truncated (if raw.length < 4 then 4 else 12) raw.length)) ∧
    (∀ raw, ¬ CutShort 3 raw →
      ∃ request, Request.parse raw = .ok request ∧ request.encode = plainFlag 3 raw) ∧
    (∀ response : Response, Response.parse response.encode = response) ∧
    (∀ raw, CutShort 2 raw → Response.parse raw = .empty) ∧
    ∀ raw, ¬ CutShort 2 raw → (Response.parse raw).encode = plainFlag 2 raw :=
  ⟨Request.parse_encode, fun _ => Request.parse_of_cutShort, fun _ => Request.encode_parse,
    Response.parse_encode, fun _ => Response.parse_of_cutShort, fun _ => Response.encode_parse⟩

theorem frames_inverse_other_flag :
    (∃ request, Request.parse [1, 2, 3, 127, 8, 7, 6, 5, 4, 3, 2, 1, 9] = .ok request ∧
      request.encode = [1, 2, 3, 1, 8, 7, 6, 5, 4, 3, 2, 1, 9]) ∧
    Request.parse [1, 2, 3, 127, 8, 7, 6, 5, 4, 3, 2] = .error (.truncated 12 11) ∧
    (Response.parse [1, 2, 127, 8, 7, 6, 5, 4, 3, 2, 1]).encode =
      [1, 2, 1, 8, 7, 6, 5, 4, 3, 2, 1] ∧
    Response.parse [1, 2, 127, 8, 7, 6, 5, 4, 3, 2] = .empty := by
  obtain ⟨-, truncated, rebuilt, -, emptied, rebuilt'⟩ := frames_inverse
  exact ⟨rebuilt _ (by decide), truncated _ (by decide), rebuilt' _ (by decide),
    emptied _ (by decide)⟩

end NodeProtocol
