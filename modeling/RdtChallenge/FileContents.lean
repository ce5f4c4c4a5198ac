import Mathlib.Algebra.Order.Floor.Div
import Mathlib.Data.List.GetD
import RdtChallenge.Packet

namespace RdtChallenge
open Loops

abbrev Byte := BitVec 8

/-- `(int32_t)content[i]`, where `char` is signed. -/
def getFileContents (content : List Byte) : List Value := content.map (·.signExtend 32)

/-- `(char)fileContents[i]`. -/
def setFileContents (fileContents : List Value) : List Byte := fileContents.map (·.setWidth 8)

def totalPkts (fileSize : ℕ) : ℕ :=
  let n := u32 (fileSize + dataSize - 1) / dataSize
  if n = 0 then 1 else n

/-- Lines 90 to 106 of the sender. All counts are `uint32_t`, and the difference
`fileSize - off` wraps around. -/
def packetBuffer (fileContents : List Value) : Option (List Packet) :=
  let fileSize := u32 fileContents.length
  (List.range (totalPkts fileSize)).mapM fun i =>
    let off := u32 (i * dataSize)
    let len := min dataSize (u32 (fileSize + 2 ^ 32 - off))
    buildDataPacket i (totalPkts fileSize) fileContents off len

def byteValue (b : Byte) : Value := b.setWidth 32

def packetCount (L : ℕ) : ℕ := max 1 (L ⌈/⌉ dataSize)

def payload (file : List Byte) (i : ℕ) : List Value :=
  ((file.drop (i * dataSize)).take dataSize).map byteValue

def dataPacket (file : List Byte) (i : ℕ) : Packet :=
  header typeData i (packetCount file.length) ++ payload file i

theorem packetCount_pos (L : ℕ) : 0 < packetCount L := Nat.lt_of_lt_of_le one_pos (le_max_left _ _)

theorem packetCount_eq (L : ℕ) : packetCount L = max 1 ((L + 121) / 122) := by
  rw [packetCount, Nat.ceilDiv_eq_add_pred_div]
  rfl

theorem packetCount_le_iff (L : ℕ) : packetCount L ≤ 65535 ↔ L ≤ 65535 * dataSize := by
  rw [packetCount_eq]
  unfold dataSize
  omega

theorem low8_signExtend (b : Byte) : low8 (b.signExtend 32) = byteValue b := by
  revert b
  decide +kernel

theorem byteValue_lt (b : Byte) : (byteValue b).toNat < 256 := by
  rw [byteValue, BitVec.toNat_setWidth]
  omega

theorem setWidth_byteValue (b : Byte) : (byteValue b).setWidth 8 = b := by
  apply BitVec.eq_of_toNat_eq
  rw [byteValue, BitVec.toNat_setWidth, BitVec.toNat_setWidth]
  omega

theorem setFileContents_map_byteValue (file : List Byte) :
    setFileContents (file.map byteValue) = file := by
  rw [setFileContents, List.map_map]
  exact List.map_id'' setWidth_byteValue file

theorem totalPkts_eq {L : ℕ} (h : L ≤ 65535 * dataSize) : totalPkts L = packetCount L := by
  rw [packetCount_eq]
  unfold totalPkts dataSize at *
  rw [u32_of_lt (by omega)]
  dsimp only
  split_ifs <;> omega

theorem payload_length (file : List Byte) (i : ℕ) :
    (payload file i).length = min dataSize (file.length - i * dataSize) := by
  simp [payload]

theorem payload_bytes (file : List Byte) (i : ℕ) : ∀ v ∈ payload file i, v.toNat < 256 := by
  intro v hv
  obtain ⟨b, -, rfl⟩ := List.mem_map.mp hv
  exact byteValue_lt b

theorem dataPacket_bytes (file : List Byte) (i : ℕ) :
    ∀ v ∈ dataPacket file i, v.toNat < 256 := by
  intro v hv
  rcases List.mem_append.mp hv with hv | hv
  · exact header_bytes (by decide) _ _ v hv
  · exact payload_bytes file i v hv

theorem carry_dataPacket (file : List Byte) (i : ℕ) :
    carry (dataPacket file i) = dataPacket file i := carry_eq_self (dataPacket_bytes file i)

theorem dataPacket_length_le (file : List Byte) (i : ℕ) : (dataPacket file i).length ≤ 128 := by
  have h : (payload file i).length ≤ dataSize := payload_length file i ▸ min_le_left _ _
  rw [dataPacket, List.length_append]
  exact Nat.add_le_add_left h 6

@[simp] theorem drop_dataPacket (file : List Byte) (i : ℕ) :
    (dataPacket file i).drop dataHeader = payload file i := rfl

theorem decode_dataPacket {file : List Byte} {i : ℕ} (hi : i < packetCount file.length)
    (h : packetCount file.length ≤ 65535) :
    decode typeData (dataPacket file i) = some (i, packetCount file.length) := by
  rw [dataPacket, decode_header (by decide), Nat.mod_eq_of_lt (by omega),
    Nat.mod_eq_of_lt (by omega)]

theorem verifyDataChecksum_dataPacket (file : List Byte) (i : ℕ) :
    verifyDataChecksum (dataPacket file i) = some true := by
  simp only [verifyDataChecksum, verifyChecksum, dataPacket, header, List.cons_append,
    List.getElem?_cons_zero, List.getElem?_cons_succ, Option.bind_eq_bind, Option.bind_some]
  rw [low8_eq_self (headerXor_lt _ _ _ _), beq_self_eq_true]

theorem buildDataPacket_eq {file : List Byte} {seq total offset len : ℕ}
    (hlen : offset + len ≤ file.length) (hsize : file.length < 2 ^ 32) :
    buildDataPacket seq total (getFileContents file) offset len =
      some (header typeData seq total ++ ((file.drop offset).take len).map byteValue) := by
  have hread : ∀ i ∈ List.range len,
      ((getFileContents file)[u32 (offset + i)]?).map low8 =
        some (byteValue (file.getD (offset + i) 0)) := by
    intro i hi
    have hi' : offset + i < file.length := by have := List.mem_range.mp hi; omega
    rw [u32_of_lt (by omega), getFileContents, List.getElem?_map, List.getElem?_eq_getElem hi',
      List.getD_eq_getElem _ _ hi', Option.map_some, Option.map_some, low8_signExtend]
  rw [buildDataPacket, mapM_eq_some hread, Option.bind_eq_bind, Option.bind_some]
  congr 2
  apply List.ext_getElem
  · simp
    omega
  · intro i hi hi'
    have hif : offset + i < file.length := by simp at hi; omega
    simp only [List.getElem_map, List.getElem_range, List.getElem_take, List.getElem_drop,
      List.getD_eq_getElem _ _ hif]

theorem dataPacket_offset {file : List Byte} {i : ℕ} (hi : i < packetCount file.length) :
    i * dataSize ≤ file.length := by
  rw [packetCount_eq] at hi
  unfold dataSize
  omega

theorem packetBuffer_eq {file : List Byte} (h : packetCount file.length ≤ 65535) :
    packetBuffer (getFileContents file) =
      some ((List.range (packetCount file.length)).map (dataPacket file)) := by
  have hL : file.length ≤ 65535 * dataSize := (packetCount_le_iff _).mp h
  have hlen : (getFileContents file).length = file.length := List.length_map _
  have hsize : file.length < 2 ^ 32 := by unfold dataSize at hL; omega
  rw [packetBuffer, hlen, u32_of_lt hsize, totalPkts_eq hL]
  apply mapM_eq_some
  intro i hi
  have hoff := dataPacket_offset (List.mem_range.mp hi)
  have hwrap : u32 (file.length + 2 ^ 32 - i * dataSize) = file.length - i * dataSize := by
    unfold u32
    omega
  have htake : (file.drop (i * dataSize)).take (min dataSize (file.length - i * dataSize)) =
      (file.drop (i * dataSize)).take dataSize := List.take_eq_take_iff.mpr (by simp)
  dsimp only
  rw [u32_of_lt (by omega), hwrap, buildDataPacket_eq (by omega) hsize, htake]
  rfl

theorem flatten_payloads (file : List Byte) (n : ℕ) :
    ((List.range n).map (payload file)).flatten = (file.take (n * dataSize)).map byteValue := by
  induction n with
  | zero => simp
  | succ n ih =>
    rw [List.range_succ, List.map_append, List.flatten_append, ih, Nat.succ_mul, List.take_add,
      List.map_append]
    simp [payload]

theorem flatten_payloads_eq_file (file : List Byte) :
    ((List.range (packetCount file.length)).map (payload file)).flatten =
      file.map byteValue := by
  rw [flatten_payloads, List.take_of_length_le]
  rw [packetCount_eq]
  unfold dataSize
  omega

/-- What the packetization of a file should be: the packets are the file, in order,
and every one says so in its header. -/
structure Faithful (file : List Byte) (packets : List Packet) : Prop where
  count : totalPkts (u32 file.length) = packetCount file.length
  length : packets.length = packetCount file.length
  bytes : ∀ p ∈ packets, p.length ≤ 128 ∧ ∀ v ∈ p, v.toNat ≤ 255
  checksum : ∀ p ∈ packets, verifyDataChecksum p = some true
  seq : ∀ i p, packets[i]? = some p → parseSeq p = some i
  total : ∀ p ∈ packets, parseTotalPkts p = some (packetCount file.length)
  contents : (packets.map (·.drop dataHeader)).flatten = file.map byteValue

theorem faithful_of_le {file : List Byte} (h : packetCount file.length ≤ 65535) :
    Faithful file ((List.range (packetCount file.length)).map (dataPacket file)) where
  count := by
    have hL := (packetCount_le_iff _).mp h
    rw [u32_of_lt (by unfold dataSize at hL; omega), totalPkts_eq hL]
  length := by simp
  bytes p hp := by
    obtain ⟨i, -, rfl⟩ := List.mem_map.mp hp
    exact ⟨dataPacket_length_le file i, fun v hv =>
      Nat.le_of_lt_succ (dataPacket_bytes file i v hv)⟩
  checksum p hp := by
    obtain ⟨i, -, rfl⟩ := List.mem_map.mp hp
    exact verifyDataChecksum_dataPacket file i
  seq i p hp := by
    obtain ⟨hi, rfl⟩ := List.getElem?_eq_some_iff.mp hp
    rw [List.length_map, List.length_range] at hi
    rw [List.getElem_map, List.getElem_range, (parse_of_decode (decode_dataPacket hi h)).2.1]
  total p hp := by
    obtain ⟨i, hi, rfl⟩ := List.mem_map.mp hp
    exact (parse_of_decode (decode_dataPacket (List.mem_range.mp hi) h)).2.2
  contents := by
    rw [List.map_map, ← flatten_payloads_eq_file]
    rfl

theorem Faithful.packetCount_le {file : List Byte} {packets : List Packet}
    (h : Faithful file packets) : packetCount file.length ≤ 65535 := by
  obtain ⟨p, hp⟩ : ∃ p, p ∈ packets := by
    apply List.exists_mem_of_length_pos
    rw [h.length]
    exact packetCount_pos _
  have htotal := h.total p hp
  simp only [parseTotalPkts, Option.bind_eq_bind, Option.bind_eq_some_iff,
    Option.some.injEq] at htotal
  obtain ⟨hi, -, lo, -, heq⟩ := htotal
  have := word_lt hi lo
  omega

/-- The packetization is faithful for the files of at most 65535 packets and for no others. -/
theorem packetization_faithful_iff (file : List Byte) :
    (∃ packets, packetBuffer (getFileContents file) = some packets ∧ Faithful file packets) ↔
      file.length ≤ 65535 * 122 := by
  constructor
  · rintro ⟨packets, -, h⟩
    exact (packetCount_le_iff _).mp h.packetCount_le
  · intro h
    have hcount := (packetCount_le_iff _).mpr h
    exact ⟨_, packetBuffer_eq hcount, faithful_of_le hcount⟩

/-- One byte more than 65535 packets hold: the total is right, and the packets cannot say it. -/
theorem packetization_unfaithful_7995271 :
    totalPkts 7995271 = 65536 ∧
      ¬ ∃ packets, packetBuffer (getFileContents (List.replicate 7995271 0)) = some packets ∧
        Faithful (List.replicate 7995271 0) packets := by
  refine ⟨by decide, ?_⟩
  rintro ⟨packets, -, h⟩
  have := h.packetCount_le
  rw [List.length_replicate, packetCount_le_iff] at this
  exact absurd this (by decide)

end RdtChallenge
