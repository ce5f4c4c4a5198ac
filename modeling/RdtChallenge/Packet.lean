import RdtChallenge.Loops

namespace RdtChallenge
open Loops

/-- `int32_t`, one element of a packet. -/
abbrev Value := BitVec 32

abbrev Packet := List Value

def dataHeader : ℕ := 6
def ackHeader : ℕ := 6
def dataSize : ℕ := 122
def typeData : Value := 0
def typeAck : Value := 1

def low8 (v : Value) : Value := v &&& 0xFF

def u32 (n : ℕ) : ℕ := n % 2 ^ 32

theorem u32_of_lt {n : ℕ} (h : n < 2 ^ 32) : u32 n = n := Nat.mod_eq_of_lt h

def highByte (x : ℕ) : Value := BitVec.ofNat 32 ((x >>> 8) &&& 0xFF)

def lowByte (x : ℕ) : Value := BitVec.ofNat 32 (x &&& 0xFF)

def headerXor (a b c d : Value) : Value := low8 (a ^^^ b ^^^ c ^^^ d)

def header (type : Value) (x y : ℕ) : Packet :=
  [type, highByte x, lowByte x, highByte y, lowByte y,
    headerXor (highByte x) (lowByte x) (highByte y) (lowByte y)]

def buildDataPacket (seq total : ℕ) (fileData : List Value) (offset len : ℕ) : Option Packet := do
  let payload ← (List.range len).mapM fun i => (fileData[u32 (offset + i)]?).map low8
  some (header typeData seq total ++ payload)

def buildAckPacket (ackBase : ℕ) (sackMask : BitVec 16) : Packet :=
  header typeAck ackBase sackMask.toNat

def word (hi lo : Value) : ℕ := ((low8 hi <<< 8) ||| low8 lo).toNat

def parseSeq (pkt : Packet) : Option ℕ := do some (word (← pkt[1]?) (← pkt[2]?))

def parseTotalPkts (pkt : Packet) : Option ℕ := do some (word (← pkt[3]?) (← pkt[4]?))

/-- The two checksum functions of the source have the same body. -/
def verifyChecksum (pkt : Packet) : Option Bool := do
  let expected := headerXor (← pkt[1]?) (← pkt[2]?) (← pkt[3]?) (← pkt[4]?)
  some (low8 (← pkt[5]?) == expected)

def verifyDataChecksum : Packet → Option Bool := verifyChecksum

def verifyAckChecksum : Packet → Option Bool := verifyChecksum

/-- The two `continue` tests at the head of both receiving loops. -/
def accepts (headerSize : ℕ) (type : Value) (verify : Packet → Option Bool) (pkt : Packet) :
    Option Bool :=
  if pkt.length < headerSize then some false
  else do
    if low8 (← pkt[0]?) ≠ type then some false else verify pkt

def acceptsData : Packet → Option Bool := accepts dataHeader typeData verifyDataChecksum

def acceptsAck : Packet → Option Bool := accepts ackHeader typeAck verifyAckChecksum

/-- What the client puts on the wire: the low 8 bits of every value. -/
def carry (pkt : Packet) : Packet := pkt.map low8

theorem and_ff (x : ℕ) : x &&& 0xFF = x % 256 := Nat.and_two_pow_sub_one_eq_mod x 8

@[simp] theorem low8_toNat (v : Value) : (low8 v).toNat = v.toNat % 256 := by
  rw [low8, BitVec.toNat_and]
  exact and_ff _

@[simp] theorem highByte_toNat (x : ℕ) : (highByte x).toNat = x / 256 % 256 := by
  rw [highByte, and_ff, BitVec.toNat_ofNat, Nat.shiftRight_eq_div_pow]
  omega

@[simp] theorem lowByte_toNat (x : ℕ) : (lowByte x).toNat = x % 256 := by
  rw [lowByte, and_ff, BitVec.toNat_ofNat]
  omega

theorem word_eq (hi lo : Value) : word hi lo = hi.toNat % 256 * 256 + lo.toNat % 256 := by
  have hhi : hi.toNat % 256 < 256 := Nat.mod_lt _ (by norm_num)
  have hlo : lo.toNat % 256 < 2 ^ 8 := Nat.mod_lt _ (by norm_num)
  rw [word, BitVec.toNat_or, BitVec.toNat_shiftLeft, low8_toNat, low8_toNat,
    Nat.shiftLeft_eq, Nat.mod_eq_of_lt (by omega), ← Nat.shiftLeft_eq,
    ← Nat.shiftLeft_add_eq_or_of_lt hlo, Nat.shiftLeft_eq]

theorem word_lt (hi lo : Value) : word hi lo < 2 ^ 16 := by
  rw [word_eq]
  omega

theorem word_bytes (x : ℕ) : word (highByte x) (lowByte x) = x % 2 ^ 16 := by
  rw [word_eq, highByte_toNat, lowByte_toNat]
  omega

theorem low8_lt (v : Value) : (low8 v).toNat < 256 := by
  rw [low8_toNat]
  exact Nat.mod_lt _ (by norm_num)

theorem low8_eq_self {v : Value} (h : v.toNat < 256) : low8 v = v := by
  apply BitVec.eq_of_toNat_eq
  rw [low8_toNat, Nat.mod_eq_of_lt h]

theorem headerXor_lt (a b c d : Value) : (headerXor a b c d).toNat < 256 := low8_lt _

theorem header_bytes {type : Value} (htype : type.toNat < 256) (x y : ℕ) :
    ∀ v ∈ header type x y, v.toNat < 256 := by
  simp only [header, List.mem_cons, List.not_mem_nil, or_false]
  rintro v (rfl | rfl | rfl | rfl | rfl | rfl)
  · exact htype
  · rw [highByte_toNat]; exact Nat.mod_lt _ (by norm_num)
  · rw [lowByte_toNat]; exact Nat.mod_lt _ (by norm_num)
  · rw [highByte_toNat]; exact Nat.mod_lt _ (by norm_num)
  · rw [lowByte_toNat]; exact Nat.mod_lt _ (by norm_num)
  · exact headerXor_lt _ _ _ _

theorem carry_eq_self {pkt : Packet} (h : ∀ v ∈ pkt, v.toNat < 256) : carry pkt = pkt := by
  rw [carry, List.map_congr_left fun v hv => low8_eq_self (h v hv), List.map_id']

/-- What a packet that passes the acceptance test says: its two fields. -/
def decode (type : Value) : Packet → Option (ℕ × ℕ)
  | t :: a :: b :: c :: d :: x :: _ =>
    if low8 t = type ∧ low8 x = headerXor a b c d then some (word a b, word c d) else none
  | _ => none

theorem length_lt_six (pkt : Packet) (h : pkt.length < 6) (type : Value) :
    decode type pkt = none := by
  rcases pkt with _ | ⟨_, _ | ⟨_, _ | ⟨_, _ | ⟨_, _ | ⟨_, _ | ⟨_, _⟩⟩⟩⟩⟩⟩
  all_goals first | rfl | (simp only [List.length_cons] at h; omega)

theorem exists_header {pkt : Packet} (h : 6 ≤ pkt.length) :
    ∃ t a b c d x rest, pkt = t :: a :: b :: c :: d :: x :: rest := by
  rcases pkt with _ | ⟨t, _ | ⟨a, _ | ⟨b, _ | ⟨c, _ | ⟨d, _ | ⟨x, rest⟩⟩⟩⟩⟩⟩
  all_goals first | exact ⟨_, _, _, _, _, _, _, rfl⟩ | (simp at h)

/-- The acceptance test reads inside the packet only, and passes exactly what decodes. -/
theorem accepts_eq (type : Value) (pkt : Packet) :
    accepts 6 type verifyChecksum pkt = some (decode type pkt).isSome := by
  by_cases h : pkt.length < 6
  · simp [accepts, h, length_lt_six]
  · obtain ⟨t, a, b, c, d, x, rest, rfl⟩ := exists_header (by omega : 6 ≤ pkt.length)
    by_cases ht : low8 t = type
    · by_cases hx : low8 x = headerXor a b c d <;>
        simp [accepts, verifyChecksum, decode, ht, hx]
    · simp [accepts, decode, ht]

theorem acceptsData_eq (pkt : Packet) : acceptsData pkt = some (decode typeData pkt).isSome :=
  accepts_eq typeData pkt

theorem acceptsAck_eq (pkt : Packet) : acceptsAck pkt = some (decode typeAck pkt).isSome :=
  accepts_eq typeAck pkt

theorem exists_of_decode {type : Value} {pkt : Packet} {x y : ℕ}
    (h : decode type pkt = some (x, y)) :
    ∃ t a b c d e rest, pkt = t :: a :: b :: c :: d :: e :: rest ∧
      word a b = x ∧ word c d = y := by
  have hlen : 6 ≤ pkt.length := by
    by_contra hlt
    simp [length_lt_six pkt (by omega)] at h
  obtain ⟨t, a, b, c, d, e, rest, rfl⟩ := exists_header hlen
  simp only [decode, Option.ite_none_right_eq_some, Option.some.injEq, Prod.mk.injEq] at h
  exact ⟨t, a, b, c, d, e, rest, rfl, h.2.1, h.2.2⟩

theorem parse_of_decode {type : Value} {pkt : Packet} {x y : ℕ}
    (h : decode type pkt = some (x, y)) :
    6 ≤ pkt.length ∧ parseSeq pkt = some x ∧ parseTotalPkts pkt = some y := by
  obtain ⟨t, a, b, c, d, e, rest, rfl, rfl, rfl⟩ := exists_of_decode h
  simp [parseSeq, parseTotalPkts]

theorem decode_header {type : Value} (htype : type.toNat < 256) (x y : ℕ) (payload : Packet) :
    decode type (header type x y ++ payload) = some (x % 2 ^ 16, y % 2 ^ 16) := by
  simp only [header, List.cons_append, List.nil_append, decode, word_bytes]
  rw [if_pos ⟨low8_eq_self htype, low8_eq_self (headerXor_lt _ _ _ _)⟩]

/-- An acknowledgement decodes to the pair it was built from. -/
theorem decode_buildAckPacket {ackBase : ℕ} (h : ackBase < 2 ^ 16) (sackMask : BitVec 16) :
    decode typeAck (buildAckPacket ackBase sackMask) = some (ackBase, sackMask.toNat) := by
  have := decode_header (show typeAck.toNat < 256 by decide) ackBase sackMask.toNat []
  rw [List.append_nil, Nat.mod_eq_of_lt h, Nat.mod_eq_of_lt sackMask.isLt] at this
  exact this

theorem carry_buildAckPacket (ackBase : ℕ) (sackMask : BitVec 16) :
    carry (buildAckPacket ackBase sackMask) = buildAckPacket ackBase sackMask :=
  carry_eq_self (header_bytes (by decide) _ _)

end RdtChallenge
