import Resumable.Wire.Cursor

/-!
# Items

An `Item` is what the wire can say, as a tree. `Item.toBytes` is its written form said directly, with
every length in front of the body it measures; `Item.write` writes it with the operations of a
`Writer`.
-/

namespace Resumable.Wire

/-- An item with everything nested in it. -/
inductive Item where
  | null
  | bool (b : Bool)
  | u64 (n : UInt64)
  | s64 (n : Int64)
  | f64 (bits : UInt64)
  | timestamp (secs : Int64) (nanos : UInt32)
  | duration (secs : Int64) (nanos : Int32)
  | optionNone
  | string (s : String)
  | bytes (data : Bytes)
  | list (items : List Item)
  | map (entries : List (String × Item))
  | optionSome (item : Item)
  | variant (name : String) (item : Item)

namespace Item

/-- A tag with the length and the bytes behind it. -/
def framed (tag : Tag) (body : Bytes) : Bytes := tag.code :: lengthBytes body.length ++ body

/-- The written form of a variant whose item is already written. -/
def variantBytes (name : String) (item : Bytes) : Bytes :=
  framed .variant (framed .string (Bytes.ofText name) ++ item)

mutual

/-- The written form of an item. -/
def toBytes : Item → Bytes
  | null => [Tag.null.code]
  | bool b => [(if b then Tag.boolTrue else Tag.boolFalse).code]
  | u64 n => Tag.u64.code :: Bytes.littleEndian 8 n.toNat
  | s64 n => Tag.s64.code :: Bytes.littleEndian 8 n.toUInt64.toNat
  | f64 bits => Tag.f64.code :: Bytes.littleEndian 8 bits.toNat
  | timestamp secs nanos =>
    Tag.timestamp.code ::
      (Bytes.littleEndian 8 secs.toUInt64.toNat ++ Bytes.littleEndian 4 nanos.toNat)
  | duration secs nanos =>
    Tag.duration.code ::
      (Bytes.littleEndian 8 secs.toUInt64.toNat ++ Bytes.littleEndian 4 nanos.toUInt32.toNat)
  | optionNone => [Tag.optionNone.code]
  | string s => framed .string (Bytes.ofText s)
  | bytes data => framed .bytes data
  | list items => framed .list (listBytes items)
  | map entries => framed .map (entriesBytes entries)
  | optionSome item => framed .optionSome item.toBytes
  | variant name item => variantBytes name item.toBytes

/-- The written forms of items, one after the other. -/
def listBytes : List Item → Bytes
  | [] => []
  | item :: rest => item.toBytes ++ listBytes rest

/-- The written forms of named items, one variant after the other. -/
def entriesBytes : List (String × Item) → Bytes
  | [] => []
  | (name, item) :: rest => variantBytes name item.toBytes ++ entriesBytes rest

end

mutual

/-- Writes an item with the operations of a writer. -/
def write : Item → Write Unit
  | null => Writer.null
  | bool b => Writer.bool b
  | u64 n => Writer.u64 n
  | s64 n => Writer.s64 n
  | f64 bits => Writer.f64 bits
  | timestamp secs nanos => Writer.timestamp secs nanos
  | duration secs nanos => Writer.duration secs nanos
  | optionNone => Writer.optionNone
  | string s => Writer.string s
  | bytes data => Writer.bytesItem data
  | list items => do
    Writer.listBegin
    writeList items
    Writer.listEnd
  | map entries => do
    Writer.mapBegin
    writeEntries entries
    Writer.mapEnd
  | optionSome item => do
    Writer.optionBegin
    item.write
    Writer.optionEnd
  | variant name item => do
    Writer.variantBegin name
    item.write
    Writer.variantEnd

/-- Writes items in order. -/
def writeList : List Item → Write Unit
  | [] => pure ()
  | item :: rest => do
    item.write
    writeList rest

/-- Writes named items in order, each as a variant. -/
def writeEntries : List (String × Item) → Write Unit
  | [] => pure ()
  | (name, item) :: rest => do
    Writer.variantBegin name
    item.write
    Writer.variantEnd
    writeEntries rest

end

/-- The bytes of items written one after the other at the root. -/
def encode (items : List Item) : Except Error Bytes :=
  match (writeList items).on Writer.empty with
  | (.ok (), w) => w.finish
  | (.error e, _) => .error e

end Item

end Resumable.Wire
