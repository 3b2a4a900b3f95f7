import KaidaDB.Api.Auth
import KaidaDB.Common.Text

/-!
# The server key

The hash of the password for remote access is kept in `.server_key` of the data directory. It is written
when a server starts and finds none, and by `--regenerate-key`. The password itself is only shown. What
the random number generator draws and how the calls on the file system end are arguments here.
-/

namespace KaidaDB

/-! ## Passwords -/

def keyLength : Nat := 32

/-- The character for a number that is drawn. -/
def keyChar (idx : Fin 62) : Char :=
  if idx.val ≤ 9 then Char.ofNat ('0'.toNat + idx)
  else if idx.val ≤ 35 then Char.ofNat ('a'.toNat + idx - 10)
  else Char.ofNat ('A'.toNat + idx - 36)

/-- The results of `gen_range(0..62)` for one key. -/
abbrev Draws := Vector (Fin 62) keyLength

/-- Generate a random alphanumeric password. -/
def generateKey (draws : Draws) : String := String.ofList (draws.toList.map keyChar)

/-! ## The key file -/

/-- How a call of `std::fs::write` ends. -/
inductive WriteEnd where
  | done
  | notOpened (text : String)
  /-- It fails, or the process ends, with that many bytes in the file. What was there before is gone. -/
  | stopped (text : String) (written : Nat)

/-- How the calls on the file system end. -/
structure KeyIo where
  readToString : Except String Unit
  createDirAll : Except String Unit
  write : WriteEnd

/-- Programs on the contents of the key file, if there is one. -/
abbrev KeyM := EStateM KaidaDbError (Option Bytes)

namespace KeyIo

variable (io : KeyIo)

/-- `read_to_string` of a file with these contents. -/
def text (contents : Bytes) : Except String String :=
  match io.readToString, Utf8.decode contents with
  | .error text, _ => .error text
  | .ok (), some chars => .ok (String.ofList chars)
  | .ok (), none => .error "stream did not contain valid UTF-8"

def createDir : KeyM Unit :=
  match io.createDirAll with
  | .ok () => pure ()
  | .error text => throw (.config s!"failed to create data directory: {text}")

def writeKey (hash : String) : KeyM Unit :=
  match io.write with
  | .done => set (some (Utf8.encode hash.toList))
  | .notOpened text => throw (.config s!"failed to write server key: {text}")
  | .stopped text written => do
    set (some ((Utf8.encode hash.toList).take written))
    throw (.config s!"failed to write server key: {text}")

end KeyIo

section
variable (X : Crates)

/-- Load the server key hash from disk, or create a new one if it doesn't exist. The plaintext is only
returned when a new key is generated. -/
def loadOrCreateKey (io : KeyIo) (draws : Draws) : KeyM (String × Option String) := do
  match ← get with
  | some contents =>
    match io.text contents with
    | .error text => throw (.config s!"failed to read server key: {text}")
    | .ok contents =>
      let hash := trim contents
      if hash.utf8ByteSize ≠ 64 then
        throw (.config "server key file is corrupt (expected 64-char hex hash)")
      return (hash, none)
  | none =>
    io.createDir
    let plaintext := generateKey draws
    let hash := hashKey X plaintext
    io.writeKey hash
    return (hash, some plaintext)

/-- Regenerate the server key. Returns the new plaintext key. -/
def regenerateKey (io : KeyIo) (draws : Draws) : KeyM String := do
  io.createDir
  let plaintext := generateKey draws
  let hash := hashKey X plaintext
  io.writeKey hash
  return plaintext

end

end KaidaDB
