import Mathlib.Logic.Function.Basic
import FinmarsWorkflow.Python.Effects
import FinmarsWorkflow.Python.Text

/-! The encrypted storage of a space.
`finmars.Storage` puts names below the code of the space, `FinmarsStorage` overwrites what has
the name already, and `EncryptedStorage` keeps a random nonce in front of the ciphertext. The
backend is a map from paths to bytes. -/
namespace FinmarsWorkflow.Encrypted
open Python

abbrev Bytes := List UInt8

/-- What `os.urandom(12)` returns. -/
structure Nonce where
  bytes : Bytes
  twelve : bytes.length = 12

inductive Raised where
  | indexError | fileNotFoundError | invalidTag | typeError | unicodeDecodeError
deriving DecidableEq

/-- AES-GCM under the key of the installation; decryption fails if the tag is wrong. -/
structure Cipher where
  encrypt : Bytes → Bytes → Bytes
  decrypt : Bytes → Bytes → Option Bytes

/-- The installation. The code of the space is the name of its schema; `opensText` says whether the
backend opens files as text in mode `r`. -/
structure Settings where
  spaceCode : String
  named : spaceCode ≠ ""
  isLocal : Bool
  cipher : Cipher
  opensText : Bool
  -- the name that Django makes up for one that is taken
  alternative : String → String

abbrev Files := String → Option Bytes

abbrev Storing (α : Type) := EStateM Raised Files α

section storage
variable (settings : Settings)

/-- `_encrypt_file` -/
def encryptFile (nonce : Nonce) (content : Bytes) : Bytes := nonce.bytes ++ settings.cipher.encrypt nonce.bytes content

/-- `_decrypt_file` -/
def decryptFile (encrypted : Bytes) : Except Raised Bytes :=
  match settings.cipher.decrypt (encrypted.take 12) (encrypted.drop 12) with
  | some content => .ok content
  | none => .error .invalidTag

/-- What a save leaves in the backend. -/
def stored (nonce : Nonce) (content : Bytes) : Bytes :=
  if settings.isLocal then content else encryptFile settings nonce content

/-- `EncryptedStorage._open`, read to its end. -/
def openFile (path : String) (files : Files) : Except Raised Bytes :=
  match files path with
  | none => .error .fileNotFoundError
  | some data => if settings.isLocal then .ok data else decryptFile settings data

def deleteFile (path : String) : Storing Unit := modify fun files => Function.update files path none

/-- `FinmarsStorage.get_available_name`: what has the name is deleted first. -/
def getAvailableName (path : String) : Storing String := do
  deleteFile path
  let files : Files ← get
  return if (files path).isSome then settings.alternative path else path

/-- `Storage.save` of Django, with `_save` of the encrypted storage. -/
def saveFile (path : String) (content : Bytes) (nonce : Nonce) : Storing Unit := do
  let name ← getAvailableName settings path
  modify fun files => Function.update files name (some (stored settings nonce content))

/-- How `finmars.Storage` completes a name. -/
def pathOf (name : String) : Except Raised String :=
  match name.toList with
  | [] => .error .indexError
  | char::_ => .ok (if char = '/' then settings.spaceCode ++ name else settings.spaceCode ++ "/" ++ name)

/-- `finmars.Storage.open` and reading what it opens. -/
def read (name : String) (files : Files) : Except Raised Bytes :=
  (pathOf settings name).bind fun path => openFile settings path files

/-- `content.encode("utf-8")` -/
def encodeText (text : String) : Bytes := text.toUTF8.toList

/-- The calls of `finmars.Storage` that write, each with the nonce that it draws. -/
inductive Call where
  | save (name : String) (content : Bytes) (nonce : Nonce)
  | saveText (name : String) (text : String) (nonce : Nonce)
  | delete (name : String)

def perform : Call → Storing Unit
  | .save name content nonce => do
    let path ← attempt (pathOf settings name)
    saveFile settings path content nonce
  | .saveText name text nonce => do
    let path ← attempt (pathOf settings name)
    saveFile settings path (encodeText text) nonce
  | .delete name => do
    let path ← attempt (pathOf settings name)
    deleteFile path

end storage

section names

/-- A name without the slash that it may begin with. -/
def keyOf (name : String) : String := match name.toList with
  | '/'::rest => String.ofList rest
  | _ => name

/-- No segment of the name is empty, or goes nowhere, or goes up. -/
def Plain (name : String) : Prop := ∀ segment ∈ split '/' (keyOf name), segment ≠ "" ∧ segment ≠ "." ∧ segment ≠ ".."

instance (name : String) : Decidable (Plain name) := inferInstanceAs (Decidable (∀ _ ∈ _, _))

theorem keyOf_slash (name : String) (plain : Plain name) : keyOf name ≠ "" := by
  intro empty
  have parts := plain
  unfold Plain at parts
  rw [empty] at parts
  exact (parts "" (by decide)).1 rfl

/-- Both spellings of a name have one path. -/
theorem pathOf_key {settings : Settings} {name : String} (plain : Plain name) :
    pathOf settings name = .ok (settings.spaceCode ++ "/" ++ keyOf name) := by
  have some_key := keyOf_slash name plain
  unfold pathOf keyOf at *
  cases chars : name.toList with
  | nil =>
    rw [chars] at some_key
    exact absurd (String.toList_inj.mp (by rw [chars]; rfl)) some_key
  | cons char rest =>
    by_cases slash : char = '/'
    · subst slash
      simp only [if_true]
      apply congrArg Except.ok
      apply String.toList_inj.mp
      simp [chars]
    · simp only [if_neg slash]
      split
      · rename_i same
        cases same
        exact absurd rfl slash
      · rfl

/-- The path of a name, once it is known to be one. -/
def path (settings : Settings) (name : String) : String := settings.spaceCode ++ "/" ++ keyOf name

theorem path_inj {settings : Settings} {name other : String} (same : path settings name = path settings other) :
    keyOf name = keyOf other := by
  unfold path at same
  exact (String.append_right_inj _).mp same

end names

section history

def Call.name : Call → String
  | .save name _ _ | .saveText name _ _ | .delete name => name

/-- What a call makes the content of its name, with the nonce that goes with it. -/
def Call.leaves : Call → Option (Nonce × Bytes)
  | .save _ content nonce => some (nonce,content)
  | .saveText _ text nonce => some (nonce,encodeText text)
  | .delete _ => none

/-- The content of a name after one more call: calls on other names leave it alone. -/
def heldAfter (name : String) (before : Option (Nonce × Bytes)) (call : Call) : Option (Nonce × Bytes) :=
  if keyOf call.name = keyOf name then call.leaves else before

/-- The content of the last save to a name since its last delete, if there is one. -/
def lastSaved (name : String) (calls : List Call) : Option Bytes := (calls.foldl (heldAfter name) none).map Prod.snd

/-- What opening and reading returns for a content, or for no file. -/
def contentOrMissing : Option Bytes → Except Raised Bytes
  | some content => .ok content
  | none => .error .fileNotFoundError

variable {settings : Settings} {files start : Files} {name : String}

/-- The backend after a call. -/
def written (settings : Settings) (call : Call) (files : Files) : Files :=
  Function.update files (path settings call.name) (call.leaves.map fun held => stored settings held.1 held.2)

/-- The name is free once its file is deleted, so a save writes where it was asked to. -/
theorem saveFile_run (place : String) (content : Bytes) (nonce : Nonce) : (saveFile settings place content nonce).run files =
    .ok () (Function.update files place (some (stored settings nonce content))) := by
  have name : (getAvailableName settings place).run files = .ok place (Function.update files place none) := by
    have free : ((Function.update files place none : Files) place).isSome = false := by
      rw [Function.update_self]
      rfl
    unfold getAvailableName deleteFile
    change EStateM.Result.ok (if ((Function.update files place none : Files) place).isSome = true then _ else _) _ = _
    rw [free]
    rfl
  unfold saveFile
  rw [bind_run name]
  change EStateM.Result.ok () (Function.update (Function.update files place none) place _) = _
  rw [Function.update_idem]

theorem perform_run (call : Call) (plain : Plain call.name) :
    (perform settings call).run files = .ok () (written settings call files) := by
  cases call with
  | save name content nonce =>
    exact (bind_run (attempt_ok (pathOf_key plain))).trans (saveFile_run _ content nonce)
  | saveText name text nonce =>
    exact (bind_run (attempt_ok (pathOf_key plain))).trans (saveFile_run _ _ nonce)
  | delete name =>
    exact (bind_run (attempt_ok (pathOf_key plain))).trans rfl

/-- The file at the path of a name is what the last call on the name has left there. -/
theorem written_holds (calls : List Call) (before : Option (Nonce × Bytes))
    (held : start (path settings name) = before.map fun held => stored settings held.1 held.2) :
    (calls.foldl (fun files call => written settings call files) start) (path settings name) =
      (calls.foldl (heldAfter name) before).map fun held => stored settings held.1 held.2 := by
  induction calls generalizing start before with
  | nil => exact held
  | cons call rest ih =>
    apply ih
    unfold heldAfter written
    by_cases same : keyOf call.name = keyOf name
    · have paths : path settings name = path settings call.name := by
        unfold path
        rw [same]
      rw [if_pos same,paths]
      exact Function.update_self _ _ _
    · rw [if_neg same]
      exact (Function.update_of_ne (fun equal => same (path_inj equal).symm) _ _).trans held

/-- The decoder cuts the nonce where the encoder put it. -/
theorem openFile_stored (roundTrip : ∀ nonce content, nonce.length = 12 →
      settings.cipher.decrypt nonce (settings.cipher.encrypt nonce content) = some content)
    {place : String} {nonce : Nonce} {content : Bytes} (there : files place = some (stored settings nonce content)) :
    openFile settings place files = .ok content := by
  unfold openFile
  simp only [there]
  unfold stored
  cases settings.isLocal with
  | true => rfl
  | false =>
    have decrypted := roundTrip nonce.bytes content nonce.twelve
    simp only [Bool.false_eq_true,if_false]
    unfold decryptFile encryptFile
    rw [List.take_left' nonce.twelve,List.drop_left' nonce.twelve,decrypted]

end history

/-- After any sequence of saves and deletes, reading a name returns the content of its last save since its last delete,
and fails if there is none. -/
theorem reads_last_save (settings : Settings) (roundTrip : ∀ nonce content, nonce.length = 12 →
      settings.cipher.decrypt nonce (settings.cipher.encrypt nonce content) = some content)
    (calls : List Call) (plain : ∀ call ∈ calls, Plain call.name) (name : String) (named : Plain name)
    (start : Files) (empty : start (path settings name) = none) :
    ∃ after, (forEach (perform settings) calls).run start = .ok () after ∧
      read settings name after = contentOrMissing (lastSaved name calls) := by
  refine ⟨_,forEach_run (fun call among files => perform_run call (plain call among)),?_⟩
  have held := written_holds calls none empty
  unfold read lastSaved
  rw [pathOf_key named]
  change openFile settings (path settings name) _ = _
  cases last : calls.foldl (heldAfter name) none with
  | none =>
    rw [last] at held
    unfold openFile
    rw [held]
    rfl
  | some pair =>
    rw [last] at held
    exact openFile_stored roundTrip held

section witness

/-- A cipher that turns the text around and puts a tag behind it. -/
def turned : Cipher where
  encrypt := fun _ content => content.reverse ++ List.replicate 16 0
  decrypt := fun _ encrypted => some (encrypted.take (encrypted.length - 16)).reverse

def remoteSettings : Settings where
  spaceCode := "space00000"
  named := by decide
  isLocal := false
  cipher := turned
  opensText := false
  alternative := fun name => name ++ "_1"

def zeroNonce : Nonce := ⟨List.replicate 12 0,rfl⟩

theorem turned_roundTrip (nonce content : Bytes) : turned.decrypt nonce (turned.encrypt nonce content) = some content := by
  simp [turned]

/-- A file that is written, written again under its other spelling, and read. -/
theorem reads_second_save : ∃ after, (forEach (perform remoteSettings)
      [.save "data/file.bin" [1,2] zeroNonce,.save "/data/file.bin" [] zeroNonce,.delete "other.txt"]).run (fun _ => none) =
        .ok () after ∧
    read remoteSettings "data/file.bin" after = contentOrMissing (lastSaved "data/file.bin"
      [.save "data/file.bin" [1,2] zeroNonce,.save "/data/file.bin" [] zeroNonce,.delete "other.txt"]) :=
  reads_last_save remoteSettings (fun nonce content _ => turned_roundTrip nonce content) _ (by decide) "data/file.bin" (by decide)
    (fun _ => none) rfl

end witness

end FinmarsWorkflow.Encrypted
