import ArchiveVfs.Deflate.Inflate
import ArchiveVfs.Error
import ArchiveVfs.Zip.Cipher
import ArchiveVfs.Zip.Container

/-!
# Unpacking encrypted entries

An encrypted entry is found by its name, decrypted and decoded as a whole, and its
checksum is checked before any byte is handed out.
-/

namespace ArchiveVfs.Zip

/-- The packed bytes of an entry, as far as the data hold them. -/
def Item.packed (item : Item) (data : Bytes) : Bytes :=
  (data.drop item.dataStart).take item.packedSize

/-- The packed bytes of an entry without its encryption. -/
def Item.plain (item : Item) (data password : Bytes) : Except Fault Bytes :=
  if item.encrypted then
    if item.strong then .error .strongEncryption
    else
      let packed := item.packed data
      if packed.length < cipherHeaderSize then .error .cut
      else
        let plain := decrypt password packed
        if plain[cipherHeaderSize - 1]? = some item.checkByte then
          .ok (plain.drop cipherHeaderSize)
        else .error .wrongPassword
  else if item.strong then .error .wrongPassword
  else .ok (item.packed data)

/-- Decodes packed bytes as a whole. -/
def decodeWhole (method : Method) (packed : Bytes) : Except Error Bytes :=
  match method with
  | .stored => .ok packed
  | .deflated =>
    let inflated := Deflate.inflate packed
    match inflated.fault with
    | none => .ok inflated.bytes.toList
    | some .incomplete => .error (.transfer .incompleteDeflate)
    | some .corrupt => .error (.transfer .corruptDeflate)
  | .other _ => .error (.container .unsupportedMethod)

/-- The contents of an entry, checked against its checksum. -/
def Item.contents (item : Item) (data password : Bytes) : Except Error Bytes := do
  if let .other _ := item.method then throw (.container .unsupportedMethod)
  let plain ← (item.plain data password).mapError .container
  let contents ← decodeWhole item.method plain
  if Checksum.ofBytes contents = item.checksum then return contents
  throw (.transfer .invalidChecksum)

/-- The entry with this very name. -/
def itemNamed (data : Bytes) (name : String) : Except Fault Item := do
  match (← records data).find? fun record => record.name = name with
  | none => throw .entryMissing
  | some record => return { record with dataStart := ← record.dataStart data }

/-- The contents of the entry with this very name. -/
def unpack (data : Bytes) (name : String) (password : Bytes) : Except Error Bytes := do
  (← (itemNamed data name).mapError .container).contents data password

end ArchiveVfs.Zip
