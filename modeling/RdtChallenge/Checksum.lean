import RdtChallenge.Client
import RdtChallenge.CyclicCode

namespace RdtChallenge
open CyclicCode (toPoly generator message feed shifts)

/-- `Polynomial`, whose lowest bit is the constant term. -/
def polynomial : BitVec 32 := 0x04C11DB7

/-- `Crc32Lookup[0]`. -/
def crc32Lookup : List (BitVec 32) :=
  [0x00000000, 0x77073096, 0xEE0E612C, 0x990951BA, 0x076DC419, 0x706AF48F, 0xE963A535,
   0x9E6495A3, 0x0EDB8832, 0x79DCB8A4, 0xE0D5E91E, 0x97D2D988, 0x09B64C2B, 0x7EB17CBD,
   0xE7B82D07, 0x90BF1D91, 0x1DB71064, 0x6AB020F2, 0xF3B97148, 0x84BE41DE, 0x1ADAD47D,
   0x6DDDE4EB, 0xF4D4B551, 0x83D385C7, 0x136C9856, 0x646BA8C0, 0xFD62F97A, 0x8A65C9EC,
   0x14015C4F, 0x63066CD9, 0xFA0F3D63, 0x8D080DF5, 0x3B6E20C8, 0x4C69105E, 0xD56041E4,
   0xA2677172, 0x3C03E4D1, 0x4B04D447, 0xD20D85FD, 0xA50AB56B, 0x35B5A8FA, 0x42B2986C,
   0xDBBBC9D6, 0xACBCF940, 0x32D86CE3, 0x45DF5C75, 0xDCD60DCF, 0xABD13D59, 0x26D930AC,
   0x51DE003A, 0xC8D75180, 0xBFD06116, 0x21B4F4B5, 0x56B3C423, 0xCFBA9599, 0xB8BDA50F,
   0x2802B89E, 0x5F058808, 0xC60CD9B2, 0xB10BE924, 0x2F6F7C87, 0x58684C11, 0xC1611DAB,
   0xB6662D3D, 0x76DC4190, 0x01DB7106, 0x98D220BC, 0xEFD5102A, 0x71B18589, 0x06B6B51F,
   0x9FBFE4A5, 0xE8B8D433, 0x7807C9A2, 0x0F00F934, 0x9609A88E, 0xE10E9818, 0x7F6A0DBB,
   0x086D3D2D, 0x91646C97, 0xE6635C01, 0x6B6B51F4, 0x1C6C6162, 0x856530D8, 0xF262004E,
   0x6C0695ED, 0x1B01A57B, 0x8208F4C1, 0xF50FC457, 0x65B0D9C6, 0x12B7E950, 0x8BBEB8EA,
   0xFCB9887C, 0x62DD1DDF, 0x15DA2D49, 0x8CD37CF3, 0xFBD44C65, 0x4DB26158, 0x3AB551CE,
   0xA3BC0074, 0xD4BB30E2, 0x4ADFA541, 0x3DD895D7, 0xA4D1C46D, 0xD3D6F4FB, 0x4369E96A,
   0x346ED9FC, 0xAD678846, 0xDA60B8D0, 0x44042D73, 0x33031DE5, 0xAA0A4C5F, 0xDD0D7CC9,
   0x5005713C, 0x270241AA, 0xBE0B1010, 0xC90C2086, 0x5768B525, 0x206F85B3, 0xB966D409,
   0xCE61E49F, 0x5EDEF90E, 0x29D9C998, 0xB0D09822, 0xC7D7A8B4, 0x59B33D17, 0x2EB40D81,
   0xB7BD5C3B, 0xC0BA6CAD, 0xEDB88320, 0x9ABFB3B6, 0x03B6E20C, 0x74B1D29A, 0xEAD54739,
   0x9DD277AF, 0x04DB2615, 0x73DC1683, 0xE3630B12, 0x94643B84, 0x0D6D6A3E, 0x7A6A5AA8,
   0xE40ECF0B, 0x9309FF9D, 0x0A00AE27, 0x7D079EB1, 0xF00F9344, 0x8708A3D2, 0x1E01F268,
   0x6906C2FE, 0xF762575D, 0x806567CB, 0x196C3671, 0x6E6B06E7, 0xFED41B76, 0x89D32BE0,
   0x10DA7A5A, 0x67DD4ACC, 0xF9B9DF6F, 0x8EBEEFF9, 0x17B7BE43, 0x60B08ED5, 0xD6D6A3E8,
   0xA1D1937E, 0x38D8C2C4, 0x4FDFF252, 0xD1BB67F1, 0xA6BC5767, 0x3FB506DD, 0x48B2364B,
   0xD80D2BDA, 0xAF0A1B4C, 0x36034AF6, 0x41047A60, 0xDF60EFC3, 0xA867DF55, 0x316E8EEF,
   0x4669BE79, 0xCB61B38C, 0xBC66831A, 0x256FD2A0, 0x5268E236, 0xCC0C7795, 0xBB0B4703,
   0x220216B9, 0x5505262F, 0xC5BA3BBE, 0xB2BD0B28, 0x2BB45A92, 0x5CB36A04, 0xC2D7FFA7,
   0xB5D0CF31, 0x2CD99E8B, 0x5BDEAE1D, 0x9B64C2B0, 0xEC63F226, 0x756AA39C, 0x026D930A,
   0x9C0906A9, 0xEB0E363F, 0x72076785, 0x05005713, 0x95BF4A82, 0xE2B87A14, 0x7BB12BAE,
   0x0CB61B38, 0x92D28E9B, 0xE5D5BE0D, 0x7CDCEFB7, 0x0BDBDF21, 0x86D3D2D4, 0xF1D4E242,
   0x68DDB3F8, 0x1FDA836E, 0x81BE16CD, 0xF6B9265B, 0x6FB077E1, 0x18B74777, 0x88085AE6,
   0xFF0F6A70, 0x66063BCA, 0x11010B5C, 0x8F659EFF, 0xF862AE69, 0x616BFFD3, 0x166CCF45,
   0xA00AE278, 0xD70DD2EE, 0x4E048354, 0x3903B3C2, 0xA7672661, 0xD06016F7, 0x4969474D,
   0x3E6E77DB, 0xAED16A4A, 0xD9D65ADC, 0x40DF0B66, 0x37D83BF0, 0xA9BCAE53, 0xDEBB9EC5,
   0x47B2CF7F, 0x30B5FFE9, 0xBDBDF21C, 0xCABAC28A, 0x53B39330, 0x24B4A3A6, 0xBAD03605,
   0xCDD70693, 0x54DE5729, 0x23D967BF, 0xB3667A2E, 0xC4614AB8, 0x5D681B02, 0x2A6F2B94,
   0xB40BBE37, 0xC30C8EA1, 0x5A05DF1B, 0x2D02EF8D]

def crc32Step (crc : BitVec 32) (current : Byte) : Option (BitVec 32) := do
  let entry ← crc32Lookup[((crc &&& 0xFF) ^^^ current.setWidth 32).toNat]?
  some ((crc >>> 8) ^^^ entry)

def crc32_1byte (data : List Byte) (previousCrc32 : BitVec 32) : Option (BitVec 32) := do
  let crc ← data.foldlM crc32Step (~~~previousCrc32)
  some (~~~crc)

def checksumWord : List Byte := chars ['C', 'H', 'E', 'C', 'K', 'S', 'U', 'M', ' ']

/-- `std::to_string`. -/
def decimal (n : ℕ) : List Byte := chars (Nat.toDigits 10 n)

/-- The message of `sendChecksum` for a file with these contents. -/
def checksumMessage (type challenge fileContents : List Byte) : Option Message := do
  let crc ← crc32_1byte (challenge ++ fileContents) 0
  some (checksumWord ++ type ++ space :: decimal crc.toNat)

/-- Bit `n` of the data, the lowest bit of each byte first. -/
def bitAt (data : List Byte) (n : ℕ) : Bool := data[n / 8]?.any fun b => b.getLsbD (n % 8)

noncomputable def crcPolynomial : Polynomial (ZMod 2) :=
  Polynomial.X ^ 32 + ∑ j ∈ Finset.range 32, if polynomial.getLsbD j then Polynomial.X ^ j else 0

theorem generator_reverse : generator polynomial.reverse = crcPolynomial := by
  simp only [generator, toPoly, crcPolynomial, BitVec.getMsbD_reverse]

theorem crc32Lookup_eq : crc32Lookup =
    (List.range 256).map fun i => shifts polynomial.reverse 8 (BitVec.ofNat 32 i) := by
  decide +kernel

theorem crc32Step_eq (crc : BitVec 32) (current : Byte) :
    crc32Step crc current = some (feed polynomial.reverse crc current) := by
  have hlow : crc &&& 0xFF = (crc.setWidth 8).setWidth 32 := by
    apply BitVec.eq_of_toNat_eq
    have hmod := low8_toNat crc
    rw [low8] at hmod
    rw [hmod, BitVec.toNat_setWidth, BitVec.toNat_setWidth]
    omega
  have hlt : ((crc.setWidth 8 ^^^ current).setWidth 32).toNat < 256 := by
    rw [BitVec.toNat_setWidth]
    have := (crc.setWidth 8 ^^^ current).isLt
    omega
  rw [crc32Step, hlow, ← BitVec.setWidth_xor, crc32Lookup_eq, List.getElem?_map,
    List.getElem?_range hlt, CyclicCode.feed_eq]
  simp only [Option.map_some, Option.bind_eq_bind, Option.bind_some, BitVec.ofNat_toNat,
    BitVec.setWidth_eq]

theorem crc32_1byte_eq (data : List Byte) (previousCrc32 : BitVec 32) :
    crc32_1byte data previousCrc32 =
      some (~~~(data.foldl (feed polynomial.reverse) (~~~previousCrc32))) := by
  have hloop : ∀ crc, data.foldlM crc32Step crc =
      some (data.foldl (feed polynomial.reverse) crc) := by
    induction data with
    | nil => exact fun crc => rfl
    | cons b data ih =>
      intro crc
      rw [List.foldlM_cons, crc32Step_eq, Option.bind_eq_bind, Option.bind_some, ih,
        List.foldl_cons]
  rw [crc32_1byte, hloop, Option.bind_eq_bind, Option.bind_some]

/-- Every access to the table is inside it, and the result is the inverted remainder of the
division by `Polynomial`, with the inverted previous checksum in front of the data. -/
theorem crc32_1byte_remainder (data : List Byte) (previousCrc32 : BitVec 32) :
    ∃ crc, crc32_1byte data previousCrc32 = some crc ∧
      toPoly (~~~crc) = (Polynomial.X ^ (8 * data.length) * toPoly (~~~previousCrc32) +
        Polynomial.X ^ 32 * message data) %ₘ crcPolynomial := by
  refine ⟨_, crc32_1byte_eq data previousCrc32, ?_⟩
  rw [BitVec.not_not, CyclicCode.toPoly_foldl_feed (by decide), generator_reverse]

theorem decimal_injective : Function.Injective decimal := by
  have hback : ∀ n, (decimal n).map (fun b => Char.ofNat b.toNat) = Nat.toDigits 10 n := by
    intro n
    rw [decimal, chars, List.map_map]
    conv_rhs => rw [← List.map_id (Nat.toDigits 10 n)]
    apply List.map_congr_left
    intro c hc
    have hdigit := Nat.isDigit_of_mem_toDigits (by decide) (by decide) hc
    have hlt : c.toNat < 256 := by
      simp only [Char.isDigit, Bool.and_eq_true, decide_eq_true_eq] at hdigit
      have : c.val ≤ 57 := hdigit.2
      have : c.toNat ≤ 57 := this
      omega
    rw [Function.comp_apply, BitVec.toNat_ofNat, Nat.mod_eq_of_lt hlt, Char.ofNat_toNat]
    rfl
  intro m n h
  rw [← Nat.ofDigitChars_ten_toDigits (n := m), ← hback, h, hback, Nat.ofDigitChars_ten_toDigits]

theorem polynomial_msb : polynomial.reverse.msb = true := by decide +kernel

def afterChallenge (challenge : List Byte) : BitVec 32 :=
  challenge.foldl (feed polynomial.reverse) (~~~0)

theorem checksumMessage_eq (type challenge fileContents : List Byte) :
    checksumMessage type challenge fileContents = some (checksumWord ++ type ++ space ::
      decimal (~~~(fileContents.foldl (feed polynomial.reverse)
        (afterChallenge challenge))).toNat) := by
  rw [checksumMessage, crc32_1byte_eq, Option.bind_eq_bind, Option.bind_some, List.foldl_append,
    afterChallenge]

theorem checksumMessage_inj {type challenge file file' : List Byte} :
    checksumMessage type challenge file = checksumMessage type challenge file' ↔
      file.foldl (feed polynomial.reverse) (afterChallenge challenge) =
        file'.foldl (feed polynomial.reverse) (afterChallenge challenge) := by
  rw [checksumMessage_eq, checksumMessage_eq]
  constructor
  · intro h
    have hnumber := List.append_cancel_left (Option.some.inj h)
    have hcrc := decimal_injective (List.tail_eq_of_cons_eq hnumber)
    exact BitVec.not_inj.mp (BitVec.eq_of_toNat_eq hcrc)
  · intro h
    rw [h]

/-- Files of one length have the same message exactly when the divisor divides their
difference, whatever the challenge. -/
theorem checksum_eq_iff (type challenge : List Byte) {file file' : List Byte}
    (hlen : file.length = file'.length) :
    checksumMessage type challenge file = checksumMessage type challenge file' ↔
      crcPolynomial ∣ message file - message file' := by
  rw [checksumMessage_inj, CyclicCode.foldl_feed_eq_iff polynomial_msb (by decide) _ hlen,
    generator_reverse]

/-- An error of 33 bits that stays unnoticed: the divisor itself. -/
theorem checksum_eq_iff_five : crcPolynomial ∣
    message [(0 : Byte), 0, 0, 0, 0] - message [(0x80 : Byte), 0x20, 0x83, 0xB8, 0xED] := by
  have hsame : checksumMessage (chars ['O', 'U', 'T']) [1, 2] [0, 0, 0, 0, 0] =
      checksumMessage (chars ['O', 'U', 'T']) [1, 2] [0x80, 0x20, 0x83, 0xB8, 0xED] := by
    decide +kernel
  have hlen : [(0 : Byte), 0, 0, 0, 0].length = [(0x80 : Byte), 0x20, 0x83, 0xB8, 0xED].length :=
    rfl
  exact (checksum_eq_iff _ _ hlen).mp hsame

/-- The bits of the data are the coefficients of its polynomial, the last one being constant. -/
theorem coeff_message_eq (data : List Byte) {n : ℕ} (hn : n < 8 * data.length) :
    (message data).coeff n = if bitAt data (8 * data.length - 1 - n) then 1 else 0 := by
  have hdiv : (8 * data.length - 1 - n) / 8 = data.length - 1 - n / 8 := by omega
  have hmod : (8 * data.length - 1 - n) % 8 = 7 - n % 8 := by omega
  have hbit : ∀ b : Byte, b.getMsbD (n % 8) = b.getLsbD (7 - n % 8) := by
    intro b
    rw [BitVec.getMsbD_eq_getLsbD]
    simp
    omega
  rw [CyclicCode.coeff_message (by decide), List.getElem?_reverse (by omega), bitAt, hdiv, hmod]
  simp only [hbit]

/-- An error within 32 successive bits of a file changes the message. -/
theorem checksum_detects_burst (type challenge : List Byte) {file file' : List Byte}
    (hlen : file.length = file'.length) (hne : file ≠ file') {i : ℕ}
    (hburst : ∀ n, bitAt file n ≠ bitAt file' n → i ≤ n ∧ n < i + 32) :
    checksumMessage type challenge file ≠ checksumMessage type challenge file' := by
  rw [Ne, checksumMessage_inj]
  apply CyclicCode.foldl_feed_ne_of_burst polynomial_msb (by decide) (by decide) _ hlen hne
    (j := 8 * file.length - i - 32)
  intro n hn
  have hlt : n < 8 * file.length := by
    by_contra hge
    have hnone : ∀ data : List Byte, data.length = file.length → (message data).coeff n = 0 := by
      intro data hdata
      rw [CyclicCode.coeff_message (by decide), List.getElem?_eq_none]
      · rfl
      · rw [List.length_reverse, hdata]
        omega
    exact hn ((hnone file rfl).trans (hnone file' hlen.symm).symm)
  rw [coeff_message_eq file hlt, coeff_message_eq file' (hlen ▸ hlt), ← hlen] at hn
  have hbits : bitAt file (8 * file.length - 1 - n) ≠ bitAt file' (8 * file.length - 1 - n) :=
    fun heq => hn (by rw [heq])
  have := hburst _ hbits
  omega

theorem checksum_detects_burst_two :
    checksumMessage (chars ['O', 'U', 'T']) [1, 2] [0x89, 0x50] ≠
      checksumMessage (chars ['O', 'U', 'T']) [1, 2] [0x09, 0x50] := by
  have hfirst : ∀ n < 8, bitAt [0x89, 0x50] n ≠ bitAt [0x09, 0x50] n → 7 ≤ n := by decide
  have hlater : ∀ n, 8 ≤ n → bitAt [0x89, 0x50] n = bitAt [0x09, 0x50] n := by
    intro n hn
    obtain ⟨m, hm⟩ : ∃ m, n / 8 = m + 1 := ⟨n / 8 - 1, by omega⟩
    simp [bitAt, hm]
  refine @checksum_detects_burst _ _ [0x89, 0x50] [0x09, 0x50] rfl (by decide) 7 fun n hn => ?_
  have hlt : n < 8 := by
    by_contra hge
    exact hn (hlater n (by omega))
  exact ⟨hfirst n hlt hn, by omega⟩

end RdtChallenge
