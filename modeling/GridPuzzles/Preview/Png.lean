import GridPuzzles.Preview.Image
import GridPuzzles.Text.Ascii

/-! Images as PNG files: eight bits per color, no filter, and image data that is stored and not
compressed. -/
namespace GridPuzzles
namespace Preview
namespace Png

def signature : List UInt8 := [0x89, 0x50, 0x4e, 0x47, 0x0d, 0x0a, 0x1a, 0x0a]

def pushAll (out : ByteArray) (bs : List UInt8) : ByteArray := bs.foldl ByteArray.push out

def bigEndian (n : UInt32) : List UInt8 :=
  [(n >>> 24).toUInt8, (n >>> 16).toUInt8, (n >>> 8).toUInt8, n.toUInt8]

def littleEndian (n : UInt16) : List UInt8 := [n.toUInt8, (n >>> 8).toUInt8]

def checkBit (c : UInt32) : UInt32 :=
  if c &&& 1 = 1 then (0xedb88320 : UInt32) ^^^ (c >>> 1) else c >>> 1

def checkByte (c : UInt32) (b : UInt8) : UInt32 :=
  checkBit <| checkBit <| checkBit <| checkBit <| checkBit <| checkBit <| checkBit <| checkBit
    (c ^^^ b.toUInt32)

def crc32 (name : List UInt8) (data : ByteArray) : UInt32 :=
  ~~~(data.foldl checkByte (name.foldl checkByte 0xffffffff))

/-- The two running sums of the checksum of image data, as the halves of a word. -/
def sumByte (s : UInt32) (b : UInt8) : UInt32 :=
  let low := (s % 65536 + b.toUInt32) % 65521
  let high := (s / 65536 + low) % 65521
  high * 65536 + low

def adler32 (data : ByteArray) : UInt32 := data.foldl sumByte 1

def pushChunk (out : ByteArray) (name : String) (data : ByteArray) : ByteArray :=
  let name := ascii name
  pushAll (pushAll out (bigEndian (UInt32.ofNat data.size) ++ name) ++ data)
    (bigEndian (crc32 name data))

def blockLimit : Nat := 65535

def pushBlock (data out : ByteArray) (start : Nat) : ByteArray :=
  let n := UInt16.ofNat (min blockLimit (data.size - start))
  let last := data.size ≤ start + blockLimit
  pushAll out ((if last then 1 else 0) :: littleEndian n ++ littleEndian (~~~n)) ++
    data.extract start (start + blockLimit)

/-- The data cut into stored blocks, with its checksum. -/
def stored (data : ByteArray) : ByteArray :=
  let starts := (List.range ((data.size - 1) / blockLimit + 1)).map (· * blockLimit)
  pushAll (starts.foldl (pushBlock data) (pushAll .empty [0x78, 0x01])) (bigEndian (adler32 data))

/-- Puts a row of pixels at the end, behind the byte that names its filter. -/
def pushRow (img : Image) (out : ByteArray) (y : Nat) : ByteArray :=
  (img.row y).foldl (fun out c => ((out.push c.red).push c.green).push c.blue) (out.push 0)

def header (img : Image) : List UInt8 :=
  bigEndian img.width ++ bigEndian img.height ++ [8, 2, 0, 0, 0]

def chunks (img : Image) : ByteArray :=
  let rows := (List.range img.height.toNat).foldl (pushRow img) .empty
  pushChunk (pushChunk (pushChunk .empty "IHDR" (pushAll .empty (header img))) "IDAT" (stored rows))
    "IEND" .empty

def encode (img : Image) : ByteArray := pushAll .empty signature ++ chunks img

theorem encode_eq_signature_append (img : Image) :
    (encode img).data.toList = signature ++ (chunks img).data.toList := by
  simp [encode, pushAll, signature]

end Png
end Preview
end GridPuzzles
