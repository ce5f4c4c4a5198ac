import RdtChallenge.Client

namespace RdtChallenge

/-- The bytes of `char_array_3` that are filled, and `ret`. -/
structure Streaming where
  pending : List Byte
  ret : List Byte

def encodeByte (st : Streaming) (byte : Byte) : Streaming :=
  match st.pending with
  | [a, b] => ⟨[], st.ret ++ encodeGroup a b byte⟩
  | pending => ⟨pending ++ [byte], st.ret⟩

/-- The last group is filled up with null characters, and its missing characters
with equals signs. -/
def encodeEnd (st : Streaming) : List Byte :=
  match st.pending with
  | [] => st.ret
  | [a] => st.ret ++ (encodeGroup a 0 0).take 2 ++ List.replicate 2 61
  | a :: b :: _ => st.ret ++ (encodeGroup a b 0).take 3 ++ List.replicate 1 61

def base64EncodeLoop (data : List Value) : List Byte :=
  encodeEnd ((data.map (·.setWidth 8)).foldl encodeByte ⟨[], []⟩)

def decodeChar (st : Streaming) (char : Byte) : Streaming :=
  match st.pending with
  | [a, b, c] => ⟨[], st.ret ++ decodeGroup a b c char⟩
  | pending => ⟨pending ++ [char], st.ret⟩

def decodeEnd (st : Streaming) : List Byte :=
  match st.pending with
  | [] => st.ret
  | [a] => st.ret ++ (decodeGroup a 0 0 0).take 0
  | [a, b] => st.ret ++ (decodeGroup a b 0 0).take 1
  | a :: b :: c :: _ => st.ret ++ (decodeGroup a b c 0).take 2

/-- The loop over `encoded_string`, which stops at the first character that is no digit. -/
def decodeLoop (st : Streaming) : List Byte → Streaming
  | [] => st
  | char :: encoded =>
    if char ≠ 61 ∧ isBase64 char then decodeLoop (decodeChar st char) encoded else st

def base64DecodeLoop (encoded : List Byte) : List Byte := decodeEnd (decodeLoop ⟨[], []⟩ encoded)

theorem encodeEnd_foldl (bytes ret : List Byte) :
    encodeEnd (bytes.foldl encodeByte ⟨[], ret⟩) = ret ++ encodeBytes bytes := by
  induction bytes using encodeBytes.induct generalizing ret with
  | case1 a b c rest ih =>
    show encodeEnd (rest.foldl encodeByte ⟨[], ret ++ encodeGroup a b c⟩) = _
    rw [ih, encodeBytes, List.append_assoc]
  | case2 a b => simp [encodeByte, encodeEnd, encodeBytes, chars]
  | case3 a => simp [encodeByte, encodeEnd, encodeBytes, chars]
  | case4 => simp [encodeEnd, encodeBytes]

theorem base64EncodeLoop_eq (data : List Value) : base64EncodeLoop data = base64Encode data :=
  encodeEnd_foldl _ []

theorem decodeLoop_eq (st : Streaming) (encoded : List Byte) : decodeLoop st encoded =
    (encoded.takeWhile fun c => c != 61 && isBase64 c).foldl decodeChar st := by
  induction encoded generalizing st with
  | nil => rfl
  | cons char encoded ih =>
    unfold decodeLoop
    split_ifs with h
    · rw [ih, List.takeWhile_cons_of_pos (by simpa using h), List.foldl_cons]
    · rw [List.takeWhile_cons_of_neg (by simpa using h), List.foldl_nil]

theorem decodeEnd_foldl (digits ret : List Byte) :
    decodeEnd (digits.foldl decodeChar ⟨[], ret⟩) = ret ++ decodeChars digits := by
  induction digits using decodeChars.induct generalizing ret with
  | case1 a b c d rest ih =>
    show decodeEnd (rest.foldl decodeChar ⟨[], ret ++ decodeGroup a b c d⟩) = _
    rw [ih, decodeChars, List.append_assoc]
  | case2 a b c => simp [decodeChar, decodeEnd, decodeChars]
  | case3 a b => simp [decodeChar, decodeEnd, decodeChars]
  | case4 a => simp [decodeChar, decodeEnd, decodeChars]
  | case5 => simp [decodeEnd, decodeChars]

theorem base64DecodeLoop_eq (encoded : List Byte) :
    base64DecodeLoop encoded = base64Decode encoded := by
  rw [base64DecodeLoop, decodeLoop_eq, decodeEnd_foldl]
  rfl

theorem base64Char_spec : ∀ i : Byte, i.toNat < 64 →
    base64Find (base64Char i) = i ∧ (base64Char i != 61 && isBase64 (base64Char i)) = true := by
  decide +kernel

def sextets (a b c : Byte) : List Byte :=
  [(a &&& 0xFC) >>> 2, ((a &&& 0x03) <<< 4) + ((b &&& 0xF0) >>> 4),
    ((b &&& 0x0F) <<< 2) + ((c &&& 0xC0) >>> 6), c &&& 0x3F]

theorem encodeGroup_eq (a b c : Byte) : encodeGroup a b c = (sextets a b c).map base64Char := rfl

theorem first_toNat (a : Byte) : ((a &&& 0xFC) >>> 2).toNat = a.toNat / 4 := by
  revert a
  decide +kernel

theorem second_toNat (a b : Byte) :
    (((a &&& 0x03) <<< 4) + ((b &&& 0xF0) >>> 4)).toNat = a.toNat % 4 * 16 + b.toNat / 16 := by
  have ha : ∀ a : Byte, ((a &&& 0x03) <<< 4).toNat = a.toNat % 4 * 16 := by decide +kernel
  have hb : ∀ b : Byte, ((b &&& 0xF0) >>> 4).toNat = b.toNat / 16 := by decide +kernel
  rw [BitVec.toNat_add, ha, hb]
  omega

theorem third_toNat (b c : Byte) :
    (((b &&& 0x0F) <<< 2) + ((c &&& 0xC0) >>> 6)).toNat = b.toNat % 16 * 4 + c.toNat / 64 := by
  have hb : ∀ b : Byte, ((b &&& 0x0F) <<< 2).toNat = b.toNat % 16 * 4 := by decide +kernel
  have hc : ∀ c : Byte, ((c &&& 0xC0) >>> 6).toNat = c.toNat / 64 := by decide +kernel
  rw [BitVec.toNat_add, hb, hc]
  omega

theorem fourth_toNat (c : Byte) : (c &&& 0x3F).toNat = c.toNat % 64 := by
  revert c
  decide +kernel

theorem sextets_lt (a b c : Byte) : ∀ i ∈ sextets a b c, i.toNat < 64 := by
  simp only [sextets, List.mem_cons, List.not_mem_nil, or_false]
  rintro i (rfl | rfl | rfl | rfl)
  · rw [first_toNat]
    omega
  · rw [second_toNat]
    omega
  · rw [third_toNat]
    omega
  · rw [fourth_toNat]
    omega

theorem first_byte (x y : Byte) (hx : x.toNat < 64) (hy : y.toNat < 64) :
    ((x <<< 2) + ((y &&& 0x30) >>> 4)).toNat = x.toNat * 4 + y.toNat / 16 := by
  have hleft : ∀ x : Byte, x.toNat < 64 → (x <<< 2).toNat = x.toNat * 4 := by decide +kernel
  have hright : ∀ y : Byte, y.toNat < 64 → ((y &&& 0x30) >>> 4).toNat = y.toNat / 16 := by
    decide +kernel
  rw [BitVec.toNat_add, hleft x hx, hright y hy]
  omega

theorem second_byte (y z : Byte) (hz : z.toNat < 64) :
    (((y &&& 0xF) <<< 4) + ((z &&& 0x3C) >>> 2)).toNat = y.toNat % 16 * 16 + z.toNat / 4 := by
  have hleft : ∀ y : Byte, ((y &&& 0xF) <<< 4).toNat = y.toNat % 16 * 16 := by decide +kernel
  have hright : ∀ z : Byte, z.toNat < 64 → ((z &&& 0x3C) >>> 2).toNat = z.toNat / 4 := by
    decide +kernel
  rw [BitVec.toNat_add, hleft y, hright z hz]
  omega

theorem third_byte (z w : Byte) (hw : w.toNat < 64) :
    (((z &&& 0x3) <<< 6) + w).toNat = z.toNat % 4 * 64 + w.toNat := by
  have hleft : ∀ z : Byte, ((z &&& 0x3) <<< 6).toNat = z.toNat % 4 * 64 := by decide +kernel
  rw [BitVec.toNat_add, hleft z]
  omega

theorem decodeGroup_take {a b c : Byte} {x y z w : Byte} {n : ℕ}
    (hx : base64Find x = (a &&& 0xFC) >>> 2)
    (hy : base64Find y = ((a &&& 0x03) <<< 4) + ((b &&& 0xF0) >>> 4))
    (hz : 2 ≤ n → base64Find z = ((b &&& 0x0F) <<< 2) + ((c &&& 0xC0) >>> 6))
    (hw : 3 ≤ n → base64Find w = c &&& 0x3F) :
    (decodeGroup x y z w).take n = [a, b, c].take n := by
  have hlt := sextets_lt a b c
  simp only [sextets, List.forall_mem_cons] at hlt
  obtain ⟨h1, h2, h3, h4, -⟩ := hlt
  have hfirst : (base64Find x <<< 2) + ((base64Find y &&& 0x30) >>> 4) = a := by
    apply BitVec.eq_of_toNat_eq
    rw [hx, hy, first_byte _ _ h1 h2, first_toNat, second_toNat]
    omega
  have hsecond : 2 ≤ n →
      ((base64Find y &&& 0xF) <<< 4) + ((base64Find z &&& 0x3C) >>> 2) = b := by
    intro hn
    apply BitVec.eq_of_toNat_eq
    rw [hy, hz hn, second_byte _ _ h3, second_toNat, third_toNat]
    omega
  have hthird : 3 ≤ n → ((base64Find z &&& 0x3) <<< 6) + base64Find w = c := by
    intro hn
    apply BitVec.eq_of_toNat_eq
    rw [hz (by omega), hw hn, third_byte _ _ h4, third_toNat, fourth_toNat]
    omega
  unfold decodeGroup
  rw [hfirst]
  match n with
  | 0 => rfl
  | 1 => rfl
  | 2 => rw [hsecond (by omega)]; rfl
  | n + 3 => rw [hsecond (by omega), hthird (by omega)]

/-- The first `n` bytes of a group come back from its first `n + 1` characters. -/
theorem decodeGroup_encodeGroup (a b c : Byte) {z w : Byte} {n : ℕ}
    (hz : 2 ≤ n → z = base64Char (((b &&& 0x0F) <<< 2) + ((c &&& 0xC0) >>> 6)))
    (hw : 3 ≤ n → w = base64Char (c &&& 0x3F)) :
    (decodeGroup (base64Char ((a &&& 0xFC) >>> 2))
      (base64Char (((a &&& 0x03) <<< 4) + ((b &&& 0xF0) >>> 4))) z w).take n =
        [a, b, c].take n := by
  have hfind : ∀ i ∈ sextets a b c, base64Find (base64Char i) = i :=
    fun i hi => (base64Char_spec i (sextets_lt a b c i hi)).1
  apply decodeGroup_take
  · exact hfind _ (by simp [sextets])
  · exact hfind _ (by simp [sextets])
  · exact fun hn => by rw [hz hn, hfind _ (by simp [sextets])]
  · exact fun hn => by rw [hw hn, hfind _ (by simp [sextets])]

theorem encodeGroup_digits (a b c : Byte) :
    ∀ char ∈ encodeGroup a b c, (char != 61 && isBase64 char) = true := by
  rw [encodeGroup_eq]
  intro char hchar
  obtain ⟨i, hi, rfl⟩ := List.mem_map.mp hchar
  exact (base64Char_spec i (sextets_lt a b c i hi)).2

theorem encodeBytes_chars (bytes : List Byte) :
    ∀ char ∈ encodeBytes bytes, char = 61 ∨ (char != 61 && isBase64 char) = true := by
  induction bytes using encodeBytes.induct with
  | case1 a b c rest ih =>
    intro char hchar
    rcases List.mem_append.mp hchar with hchar | hchar
    · exact Or.inr (encodeGroup_digits a b c char hchar)
    · exact ih char hchar
  | case2 a b =>
    intro char hchar
    rcases List.mem_append.mp hchar with hchar | hchar
    · exact Or.inr (encodeGroup_digits a b 0 char (List.mem_of_mem_take hchar))
    · exact Or.inl (by simpa [chars] using hchar)
  | case3 a =>
    intro char hchar
    rcases List.mem_append.mp hchar with hchar | hchar
    · exact Or.inr (encodeGroup_digits a 0 0 char (List.mem_of_mem_take hchar))
    · exact Or.inl (by simpa [chars] using hchar)
  | case4 => simp [encodeBytes]

theorem base64Decode_encodeBytes (bytes : List Byte) :
    base64Decode (encodeBytes bytes) = bytes := by
  unfold base64Decode
  induction bytes using encodeBytes.induct with
  | case1 a b c rest ih =>
    rw [encodeBytes, List.takeWhile_append_of_pos (encodeGroup_digits a b c)]
    show decodeGroup _ _ _ _ ++ decodeChars ((encodeBytes rest).takeWhile _) = _
    have hgroup := decodeGroup_encodeGroup a b c (n := 3) (fun _ => rfl) fun _ => rfl
    rw [ih]
    exact congrArg (· ++ rest) hgroup
  | case2 a b =>
    have hdigits : ∀ char ∈ (encodeGroup a b 0).take 3, (char != 61 && isBase64 char) = true :=
      fun char hchar => encodeGroup_digits a b 0 char (List.mem_of_mem_take hchar)
    rw [encodeBytes, List.takeWhile_append_of_pos hdigits]
    exact decodeGroup_encodeGroup a b 0 (n := 2) (fun _ => rfl) fun hn => by omega
  | case3 a =>
    have hdigits : ∀ char ∈ (encodeGroup a 0 0).take 2, (char != 61 && isBase64 char) = true :=
      fun char hchar => encodeGroup_digits a 0 0 char (List.mem_of_mem_take hchar)
    rw [encodeBytes, List.takeWhile_append_of_pos hdigits]
    exact decodeGroup_encodeGroup a 0 0 (n := 1) (fun hn => by omega) fun hn => by omega
  | case4 => rfl

theorem splitFrom_eq {delim : Byte} {s : List Byte} (hs : delim ∉ s) (item : List Byte) :
    splitFrom delim item s = if item ++ s = [] then [] else [item ++ s] := by
  induction s generalizing item with
  | nil => simp [splitFrom]
  | cons c cs ih =>
    rw [List.mem_cons, not_or] at hs
    unfold splitFrom
    rw [if_neg (Ne.symm hs.1), ih hs.2, List.append_assoc]
    rfl

theorem splitFrom_delim {delim : Byte} {s : List Byte} (hs : delim ∉ s) (item t : List Byte) :
    splitFrom delim item (s ++ delim :: t) = (item ++ s) :: splitFrom delim [] t := by
  induction s generalizing item with
  | nil => simp [splitFrom]
  | cons c cs ih =>
    rw [List.mem_cons, not_or] at hs
    rw [List.cons_append, splitFrom, if_neg (Ne.symm hs.1), ih hs.2, List.append_assoc]
    rfl

theorem split_word {word text : List Byte} (hword : space ∉ word) (htext : space ∉ text) :
    split (word ++ space :: text) space = word :: if text = [] then [] else [text] := by
  rw [split, splitFrom_delim hword, splitFrom_eq htext]
  rfl

theorem not_mem_base64Encode {char : Byte} (hne : char ≠ 61) (hdigit : isBase64 char = false)
    (p : Packet) : char ∉ base64Encode p := by
  intro hmem
  rcases encodeBytes_chars _ char hmem with h | h
  · exact hne h
  · simp [hdigit] at h

theorem byteValue_setWidth (v : Value) : byteValue (v.setWidth 8) = low8 v := by
  apply BitVec.eq_of_toNat_eq
  rw [byteValue, BitVec.toNat_setWidth, BitVec.toNat_setWidth, low8_toNat]
  omega

theorem base64Decode_base64Encode (p : Packet) :
    (base64Decode (base64Encode p)).map byteValue = carry p := by
  rw [base64Encode, base64Decode_encodeBytes, List.map_map]
  exact List.map_congr_left fun v _ => byteValue_setWidth v

theorem packetContents_base64Encode (p : Packet) : packetContents
    (packetWord :: if base64Encode p = [] then [] else [base64Encode p]) = carry p := by
  have hdecode := base64Decode_base64Encode p
  unfold packetContents
  by_cases hempty : base64Encode p = []
  · -- the empty packet: there is no second item, and the text of it is empty too
    rw [hempty] at hdecode
    rw [if_pos hempty, if_neg (by simp), ← hdecode]
    rfl
  · rw [if_neg hempty, if_pos (by simp)]
    exact hdecode

/-- What the sender's client transmits for a packet, relayed in a `PACKET` message, is
the packet of low bytes for the receiver's client. -/
theorem wire_round_trip (p : Packet) :
    space ∉ base64EncodeLoop p ∧ newline ∉ base64EncodeLoop p ∧
      (∀ input c rest, c.simulationStarted = true → c.outputPacketBuffer = p :: rest →
        (sendOne input c).1.transmitted =
          c.transmitted ++ [transmitWord ++ base64EncodeLoop p]) ∧
      (∀ input c, c.simulationStarted = true →
        handleMessage input (packetWord ++ space :: base64EncodeLoop p) c =
          (clearControlMessage
            { c with inputPacketBuffer := c.inputPacketBuffer ++ [carry p] }, none)) ∧
      (base64DecodeLoop (base64EncodeLoop p)).map byteValue = carry p ∧
      (carry p).length = p.length := by
  rw [base64DecodeLoop_eq, base64EncodeLoop_eq]
  have hspace : space ∉ base64Encode p := not_mem_base64Encode (by decide) (by decide) p
  refine ⟨hspace, not_mem_base64Encode (by decide) (by decide) p, ?_, ?_, ?_, ?_⟩
  · intro input c rest hstarted hout
    simp [sendOne, hstarted, hout]
  · intro input c hstarted
    have hsplit := split_word (show space ∉ packetWord by decide) hspace
    have hfail : startsWith failWord packetWord = false := by decide
    have hstart : startsWith startWord packetWord = false := by decide
    have hpacket : startsWith packetWord packetWord = true := by decide
    simp [handleMessage, hsplit, hfail, hstart, hpacket, hstarted, packetContents_base64Encode]
  · exact base64Decode_base64Encode p
  · exact List.length_map _

end RdtChallenge
