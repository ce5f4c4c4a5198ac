import RdtChallenge.FileContents

namespace RdtChallenge

/-- The bytes of a string constant. -/
def chars (cs : List Char) : List Byte := cs.map fun c => BitVec.ofNat 8 c.toNat

def base64Chars : List Byte := chars
  ['A', 'B', 'C', 'D', 'E', 'F', 'G', 'H', 'I', 'J', 'K', 'L', 'M', 'N', 'O', 'P', 'Q', 'R', 'S',
   'T', 'U', 'V', 'W', 'X', 'Y', 'Z', 'a', 'b', 'c', 'd', 'e', 'f', 'g', 'h', 'i', 'j', 'k', 'l',
   'm', 'n', 'o', 'p', 'q', 'r', 's', 't', 'u', 'v', 'w', 'x', 'y', 'z', '0', '1', '2', '3', '4',
   '5', '6', '7', '8', '9', '+', '/']

/-- `isalnum(c) || c == '+' || c == '/'` in the C locale. -/
def isBase64 (c : Byte) : Bool :=
  48 ≤ c.toNat && c.toNat ≤ 57 || 65 ≤ c.toNat && c.toNat ≤ 90 ||
    97 ≤ c.toNat && c.toNat ≤ 122 || c.toNat == 43 || c.toNat == 47

def base64Char (i : Byte) : Byte := base64Chars.getD i.toNat 0

def encodeGroup (a b c : Byte) : List Byte :=
  [base64Char ((a &&& 0xFC) >>> 2),
   base64Char (((a &&& 0x03) <<< 4) + ((b &&& 0xF0) >>> 4)),
   base64Char (((b &&& 0x0F) <<< 2) + ((c &&& 0xC0) >>> 6)),
   base64Char (c &&& 0x3F)]

def encodeBytes : List Byte → List Byte
  | a :: b :: c :: rest => encodeGroup a b c ++ encodeBytes rest
  | [a, b] => (encodeGroup a b 0).take 3 ++ chars ['=']
  | [a] => (encodeGroup a 0 0).take 2 ++ chars ['=', '=']
  | [] => []

/-- Only the low 8 bits of a value are used. -/
def base64Encode (data : List Value) : List Byte := encodeBytes (data.map (·.setWidth 8))

/-- `(unsigned char)base64_chars.find(c)`: a failed search is 255. -/
def base64Find (c : Byte) : Byte :=
  match base64Chars.findIdx? (· == c) with
  | some i => BitVec.ofNat 8 i
  | none => 255

def decodeGroup (a b c d : Byte) : List Byte :=
  [(base64Find a <<< 2) + ((base64Find b &&& 0x30) >>> 4),
   ((base64Find b &&& 0xF) <<< 4) + ((base64Find c &&& 0x3C) >>> 2),
   ((base64Find c &&& 0x3) <<< 6) + base64Find d]

def decodeChars : List Byte → List Byte
  | a :: b :: c :: d :: rest => decodeGroup a b c d ++ decodeChars rest
  | [a, b, c] => (decodeGroup a b c 0).take 2
  | [a, b] => (decodeGroup a b 0 0).take 1
  | [a] => (decodeGroup a 0 0 0).take 0
  | [] => []

/-- The last group is filled up with null characters. -/
def base64Decode (encoded : List Byte) : List Byte :=
  decodeChars (encoded.takeWhile fun c => c != 61 && isBase64 c)

end RdtChallenge
