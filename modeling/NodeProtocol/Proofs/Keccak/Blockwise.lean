import NodeProtocol.Keccak.Digest
import NodeProtocol.Proofs.Keccak.Lanes

namespace NodeProtocol.Keccak

/-! ## The construction -/

def padding (free : Nat) : Bytes :=
  if free = 1 then [0x81] else 0x01 :: List.replicate (free - 2) 0 ++ [0x80]

def padded (rate : Nat) (message : Bytes) : Bytes :=
  message ++ padding (rate - message.length % rate)

def blocks (rate : Nat) (message : Bytes) : List Bytes :=
  (List.range (message.length / rate)).map fun i => (message.drop (rate * i)).take rate

def absorbBlocks (blocks : List Bytes) : State :=
  blocks.foldl (fun a block => permute (a.addBlock block)) State.zero

def outputBlocks (rate : Nat) : (count : Nat) → State → Bytes
  | 0, _ => []
  | count + 1, a => a.bytes.take rate ++ outputBlocks rate count (permute a)

def blockwise (rate : Nat) (message : Bytes) (count : Nat) : Bytes :=
  (outputBlocks rate ((count + rate - 1) / rate)
    (absorbBlocks (blocks rate (padded rate message)))).take count

/-! ## Absorbing -/

theorem blocks_append {rate : Nat} {whole block : Bytes} (positive : 0 < rate)
    (divides : rate ∣ whole.length) (full : block.length = rate) :
    blocks rate (whole ++ block) = blocks rate whole ++ [block] := by
  obtain ⟨count, length⟩ := divides
  have whole_count : whole.length / rate = count := by
    rw [length, Nat.mul_div_cancel_left _ positive]
  have count_succ : (whole ++ block).length / rate = count + 1 := by
    rw [List.length_append, full, length, ← Nat.mul_succ, Nat.mul_div_cancel_left _ positive]
  rw [blocks, blocks, whole_count, count_succ, List.range_succ, List.map_append, List.map_singleton]
  congr 1
  · apply List.map_congr_left
    intro index member
    have earlier : rate * index + rate ≤ whole.length := by
      rw [length, ← Nat.mul_succ]
      exact Nat.mul_le_mul_left _ (List.mem_range.mp member)
    rw [List.drop_append_of_le_length (by omega),
      List.take_append_of_le_length (by rw [List.length_drop]; omega)]
  · rw [← length, List.drop_left, List.take_of_length_le (Nat.le_of_eq full)]

theorem flatten_blocks {rate : Nat} {message : Bytes} (positive : 0 < rate)
    (divides : rate ∣ message.length) : (blocks rate message).flatten = message := by
  obtain ⟨count, length⟩ := divides
  induction count generalizing message with
  | zero =>
      rw [Nat.mul_zero, List.length_eq_zero_iff] at length
      rw [length, blocks, List.length_nil, Nat.zero_div]
      rfl
  | succ count ih =>
      rw [Nat.mul_succ] at length
      have whole : (message.take (rate * count)).length = rate * count := by
        rw [List.length_take]
        omega
      have block : (message.drop (rate * count)).length = rate := by
        rw [List.length_drop]
        omega
      have parts := blocks_append positive (Dvd.intro count whole.symm) block
      rw [List.take_append_drop] at parts
      rw [parts, List.flatten_append, ih whole, List.flatten_singleton, List.take_append_drop]

theorem absorbBlocks_append {rate : Nat} {whole block : Bytes} (positive : 0 < rate)
    (divides : rate ∣ whole.length) (full : block.length = rate) :
    absorbBlocks (blocks rate (whole ++ block)) =
      permute ((absorbBlocks (blocks rate whole)).addBlock block) := by
  rw [blocks_append positive divides full]
  simp only [absorbBlocks, List.foldl_append, List.foldl_cons, List.foldl_nil]

def Absorbed (sponge : Sponge) (message : Bytes) : Prop :=
  ∃ whole tail, message = whole ++ tail ∧ sponge.rate ∣ whole.length ∧
    tail.length = sponge.position ∧
    sponge.state = (absorbBlocks (blocks sponge.rate whole)).addBlock tail

theorem absorbed_nil {sponge : Sponge} (state : sponge.state = State.zero)
    (position : sponge.position = 0) : Absorbed sponge [] := by
  refine ⟨[], [], rfl, Nat.dvd_zero _, position.symm, ?_⟩
  rw [state, State.addBlock_nil, blocks, List.length_nil, Nat.zero_div, List.range_zero,
    List.map_nil, absorbBlocks, List.foldl_nil]

theorem Absorbed.absorbByte {sponge : Sponge} {message : Bytes} (h : Absorbed sponge message)
    (byte : UInt8) : Absorbed (sponge.absorbByte byte) (message ++ [byte]) := by
  obtain ⟨whole, tail, rfl, divides, length, state⟩ := h
  have position_lt := sponge.position_lt
  have rate_lt := sponge.rate_lt
  have added : sponge.state.xorByte sponge.position byte =
      (absorbBlocks (blocks sponge.rate whole)).addBlock (tail ++ [byte]) := by
    rw [State.addBlock_concat _ (by omega), state, length]
  rw [Sponge.absorbByte, List.append_assoc]
  split
  case isTrue =>
    refine ⟨whole, tail ++ [byte], rfl, divides, ?_, added⟩
    rw [List.length_append, length, List.length_singleton]
  case isFalse full =>
    have block_length : (tail ++ [byte]).length = sponge.rate := by
      rw [List.length_append, length, List.length_singleton]
      omega
    refine ⟨whole ++ (tail ++ [byte]), [], (List.append_nil _).symm, ?_, rfl, ?_⟩
    · rw [List.length_append, block_length]
      exact (Nat.dvd_add_right divides).mpr (Nat.dvd_refl _)
    · have positive : 0 < sponge.rate := Nat.zero_lt_of_lt position_lt
      rw [State.addBlock_nil, absorbBlocks_append positive divides block_length, ← added]

theorem Absorbed.absorb {sponge : Sponge} {message : Bytes} (h : Absorbed sponge message)
    (bytes : Bytes) : Absorbed (sponge.absorb bytes) (message ++ bytes) := by
  induction bytes generalizing sponge message with
  | nil => rwa [List.append_nil]
  | cons byte bytes ih =>
      have rest := ih (h.absorbByte byte)
      rwa [List.append_assoc] at rest

theorem Absorbed.absorb_chunks {sponge : Sponge} {message : Bytes} (h : Absorbed sponge message)
    (chunks : List Bytes) :
    Absorbed (chunks.foldl Sponge.absorb sponge) (message ++ chunks.flatten) := by
  induction chunks generalizing sponge message with
  | nil => rwa [List.flatten_nil, List.append_nil]
  | cons chunk chunks ih =>
      have rest := ih (h.absorb chunk)
      rwa [List.append_assoc] at rest

theorem rate_absorb (sponge : Sponge) (bytes : Bytes) :
    (sponge.absorb bytes).rate = sponge.rate := by
  induction bytes generalizing sponge with
  | nil => rfl
  | cons byte bytes ih =>
      have step : (sponge.absorbByte byte).rate = sponge.rate := by
        rw [Sponge.absorbByte]
        split <;> rfl
      exact (ih _).trans step

theorem rate_absorb_chunks (sponge : Sponge) (chunks : List Bytes) :
    (chunks.foldl Sponge.absorb sponge).rate = sponge.rate := by
  induction chunks generalizing sponge with
  | nil => rfl
  | cons chunk chunks ih => exact (ih _).trans (rate_absorb sponge chunk)

/-! ## Padding -/

theorem length_padding {free : Nat} (positive : 0 < free) : (padding free).length = free := by
  rw [padding]
  split
  case isTrue single => rw [single]; rfl
  case isFalse several =>
    rw [List.length_append, List.length_cons, List.length_replicate, List.length_singleton]
    omega

theorem dvd_length_padded {rate : Nat} (positive : 0 < rate) (message : Bytes) :
    rate ∣ (padded rate message).length := by
  have taken := Nat.mod_lt message.length positive
  rw [padded, List.length_append, length_padding (by omega)]
  refine ⟨message.length / rate + 1, ?_⟩
  have division := Nat.div_add_mod message.length rate
  rw [Nat.mul_succ]
  omega

theorem addBlock_padding (a : State) {tail : Bytes} {free : Nat} (positive : 0 < free)
    (fits : tail.length + free ≤ stateLength) :
    a.addBlock (tail ++ padding free) =
      ((a.addBlock tail).xorByte tail.length 0x01).xorByte (tail.length + free - 1) 0x80 := by
  rw [padding]
  split
  -- When one byte is free, the two marks meet in it.
  case isTrue single =>
    rw [State.addBlock_concat _ (by omega), single, Nat.add_sub_cancel, State.xorByte_xorByte]
    rfl
  case isFalse several =>
    have marked : (tail ++ [0x01]).length = tail.length + 1 := by
      rw [List.length_append, List.length_singleton]
    have filled : (tail ++ [0x01] ++ List.replicate (free - 2) 0).length =
        tail.length + free - 1 := by
      rw [List.length_append, marked, List.length_replicate]
      omega
    have regrouped : tail ++ (0x01 :: List.replicate (free - 2) 0 ++ [0x80]) =
        tail ++ [0x01] ++ List.replicate (free - 2) 0 ++ [0x80] := by simp
    rw [regrouped, State.addBlock_concat _ (by omega), filled, State.addBlock_zeros _ (by omega),
      State.addBlock_concat _ (by omega)]

theorem Absorbed.pad_eq {sponge : Sponge} {message : Bytes} (h : Absorbed sponge message) :
    sponge.pad = absorbBlocks (blocks sponge.rate (padded sponge.rate message)) := by
  obtain ⟨whole, tail, rfl, divides, length, state⟩ := h
  have position_lt := sponge.position_lt
  have rate_lt := sponge.rate_lt
  have taken : (whole ++ tail).length % sponge.rate = tail.length := by
    rw [List.length_append, Nat.add_mod, Nat.mod_eq_zero_of_dvd divides, Nat.zero_add, Nat.mod_mod,
      length, Nat.mod_eq_of_lt position_lt]
  have positive : 0 < sponge.rate - tail.length := by omega
  have block_length : (tail ++ padding (sponge.rate - tail.length)).length = sponge.rate := by
    rw [List.length_append, length_padding positive]
    omega
  have last : tail.length + (sponge.rate - tail.length) - 1 = sponge.rate - 1 := by omega
  rw [padded, taken, List.append_assoc,
    absorbBlocks_append (Nat.zero_lt_of_lt position_lt) divides block_length,
    addBlock_padding _ positive (by omega), last, Sponge.pad, state, length]

/-! ## Squeezing -/

theorem drop_take_bytes (a : State) {rate position : Nat} (small : rate ≤ stateLength)
    (h : position < rate) :
    (a.bytes.take rate).drop position = a.byte position :: (a.bytes.take rate).drop (position + 1) := by
  have length : (a.bytes.take rate).length = rate := by
    rw [List.length_take, a.length_bytes, Nat.min_eq_left small]
  have read : (a.bytes.take rate)[position]? = some (a.byte position) := by
    rw [List.getElem?_take_of_lt h, a.getElem?_bytes (Nat.lt_of_lt_of_le h small)]
  obtain ⟨bound, read⟩ := List.getElem?_eq_some_iff.mp read
  rw [List.drop_eq_getElem_cons bound, read]

theorem squeezeFrom_eq {rate : Nat} (positive : 0 < rate) (small : rate ≤ stateLength)
    {position count : Nat} (later : Nat) (a : State) (inside : position ≤ rate)
    (enough : count ≤ rate - position + later * rate) :
    Sponge.squeezeFrom rate a position count =
      ((a.bytes.take rate).drop position ++ outputBlocks rate later (permute a)).take count := by
  induction count generalizing a position later with
  | zero => rw [Sponge.squeezeFrom, List.take_zero]
  | succ count ih =>
      rw [Sponge.squeezeFrom]
      split
      case isTrue here =>
        rw [drop_take_bytes a small here, List.cons_append, List.take_succ_cons,
          ih later a here (by omega)]
      case isFalse full =>
        cases later with
        | zero => omega
        | succ later =>
            have whole : (a.bytes.take rate).drop position = [] := by
              rw [List.drop_eq_nil_iff, List.length_take]
              omega
            have block := drop_take_bytes (permute a) small positive
            rw [List.drop_zero] at block
            have fewer : count ≤ rate - 1 + later * rate := by
              rw [Nat.succ_mul] at enough
              omega
            rw [whole, List.nil_append, outputBlocks, block, List.cons_append,
              List.take_succ_cons, Nat.zero_add, ← ih later (permute a) positive fewer]

theorem squeezeFrom_zero_eq {rate : Nat} (positive : 0 < rate) (small : rate ≤ stateLength)
    (a : State) (count : Nat) :
    Sponge.squeezeFrom rate a 0 count =
      (outputBlocks rate ((count + rate - 1) / rate) a).take count := by
  cases count with
  | zero => rw [Sponge.squeezeFrom, List.take_zero]
  | succ count =>
      have number : (count + 1 + rate - 1) / rate = count / rate + 1 := by
        rw [Nat.add_right_comm, Nat.add_sub_cancel, Nat.add_div_right _ positive]
      have enough : count + 1 ≤ rate - 0 + count / rate * rate := by
        have division := Nat.div_add_mod' count rate
        have remainder := Nat.mod_lt count positive
        omega
      rw [squeezeFrom_eq positive small (count / rate) a (Nat.zero_le _) enough, number,
        outputBlocks, List.drop_zero]

/-! ## Both together -/

theorem squeeze_absorb_eq {sponge : Sponge} {rate : Nat} (state : sponge.state = State.zero)
    (position : sponge.position = 0) (rate_eq : sponge.rate = rate) (chunks : List Bytes)
    (count : Nat) :
    (chunks.foldl Sponge.absorb sponge).squeeze count = blockwise rate chunks.flatten count := by
  have absorbed := (absorbed_nil state position).absorb_chunks chunks
  have positive : 0 < sponge.rate := Nat.zero_lt_of_lt sponge.position_lt
  have small : sponge.rate ≤ stateLength := Nat.le_of_lt sponge.rate_lt
  rw [Sponge.squeeze, absorbed.pad_eq, rate_absorb_chunks,
    squeezeFrom_zero_eq positive small, List.nil_append, rate_eq, blockwise]

theorem squeeze_eq_blockwise :
    (∀ rate, 0 < rate → rate < stateLength →
      ∃ sponge, Sponge.withRate (8 * rate) = .ok sponge ∧ ∀ (chunks : List Bytes) (count : Nat),
        (chunks.foldl Sponge.absorb sponge).squeeze count =
          blockwise rate chunks.flatten count) ∧
    ∀ data, (keccak256 data).val = blockwise 136 data 32 := by
  constructor
  · intro rate positive small
    have valid : 8 * rate ≠ 0 ∧ 8 * rate % 8 = 0 ∧ 8 * rate < stateLength * 8 := by omega
    have bytes : 8 * rate / 8 = rate := Nat.mul_div_cancel_left _ (by decide)
    exact ⟨_, dif_pos valid, squeeze_absorb_eq rfl rfl bytes⟩
  · intro data
    have digest : ([data].foldl Sponge.absorb Sponge.digest).squeeze 32 =
        blockwise 136 [data].flatten 32 := squeeze_absorb_eq rfl rfl rfl [data] 32
    rwa [List.flatten_singleton] at digest

theorem squeeze_eq_blockwise_one :
    ∃ sponge, Sponge.withRate 8 = .ok sponge ∧ ∀ (chunks : List Bytes) (count : Nat),
      (chunks.foldl Sponge.absorb sponge).squeeze count = blockwise 1 chunks.flatten count :=
  squeeze_eq_blockwise.1 1 (by decide) (by decide)

end NodeProtocol.Keccak
