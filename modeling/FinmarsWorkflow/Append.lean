import FinmarsWorkflow.Encrypted

/-! Appending to a text of the space, as the log handler does. `finmars.Storage.append_text` looks
for the file and saves it under the name as it is given, but opens it below the code of the space. -/
namespace FinmarsWorkflow.Encrypted
open Python

section append
variable (settings : Settings)

/-- Text mode ends every line with `\n`. -/
def universalNewlines : List Char → List Char
  | '\r' :: '\n' :: rest => '\n'::universalNewlines rest
  | '\r'::rest => '\n'::universalNewlines rest
  | char::rest => char::universalNewlines rest
  | [] => []

def decodeText (data : Bytes) : Except Raised String :=
  match String.fromUTF8? ⟨data.toArray⟩ with
  | some text => .ok (String.ofList (universalNewlines text.toList))
  | none => .error .unicodeDecodeError

/-- `EncryptedStorage._open` in mode `r`, read to its end: a text or bytes. AES-GCM takes no text. -/
def openText (path : String) (files : Files) : Except Raised (String ⊕ Bytes) :=
  match files path with
  | none => .error .fileNotFoundError
  | some data =>
    if settings.opensText then do
      let text ← decodeText data
      if settings.isLocal then .ok (.inl text) else .error .typeError
    else if settings.isLocal then .ok (.inr data)
    else (decryptFile settings data).map .inr

/-- `content = content + content + "\n"`, of what was read. -/
def doubled : String ⊕ Bytes → Except Raised String
  | .inl content => .ok (content ++ content ++ "\n")
  | .inr _ => .error .typeError

def appendText (name : String) (content : String) (nonce : Nonce) : Storing Unit := do
  let files : Files ← get
  if (files name).isSome then do
    let path ← attempt (pathOf settings name)
    let file ← attempt (openText settings path files)
    -- from here on, the content that the caller gave is gone
    let content ← attempt (doubled file)
    saveFile settings name (encodeText content) nonce
  else
    saveFile settings name (encodeText content) nonce

end append

section kept
variable {settings : Settings}

/-- A name is never the path of itself. -/
theorem pathOf_ne {name place : String} (found : pathOf settings name = .ok place) : place ≠ name := by
  intro same
  have longer : name.length < place.length := by
    have code : 0 < settings.spaceCode.length := by
      apply Nat.pos_of_ne_zero
      intro none
      exact settings.named (String.length_eq_zero_iff.mp none)
    unfold pathOf at found
    split at found
    · cases found
    · cases found
      split
      · rw [String.length_append]
        omega
      · rw [String.length_append,String.length_append]
        omega
  rw [same] at longer
  exact Nat.lt_irrefl _ longer

/-- A save to the name as it is given leaves what is read under the name. -/
theorem saveFile_keeps (name : String) (content : Bytes) (nonce : Nonce) :
    Keeps (read settings name) (saveFile settings name content nonce) := by
  intro files
  rw [saveFile_run]
  unfold read
  cases found : pathOf settings name with
  | error raised => rfl
  | ok place =>
    change openFile settings place _ = openFile settings place files
    have other : (Function.update files name (some (stored settings nonce content)) : Files) place = files place :=
      Function.update_of_ne (pathOf_ne found) _ _
    unfold openFile final
    simp only [other]

theorem appendText_keeps (name content : String) (nonce : Nonce) :
    Keeps (read settings name) (appendText settings name content nonce) := by
  unfold appendText
  apply Keeps.bind Keeps.get
  intro files
  apply Keeps.ite
  · apply Keeps.bind (Keeps.attempt _)
    intro place
    apply Keeps.bind (Keeps.attempt _)
    intro file
    apply Keeps.bind (Keeps.attempt _)
    intro text
    exact saveFile_keeps name _ nonce
  · exact saveFile_keeps name _ nonce

end kept

section law
variable (settings : Settings)

def newline : Bytes := [10]

/-- The texts in their order, a line end between any two of them, and perhaps one after the last. -/
def Lines (texts : List Bytes) (content : Bytes) : Prop :=
  content = newline.intercalate texts ∨ content = newline.intercalate texts ++ newline

/-- What has to be in the file: what was read before, and then each of the texts. -/
def textsOf (before : Except Raised Bytes) (entries : List (String × Nonce)) : List Bytes :=
  (match before with
    | .ok content => [content]
    | .error _ => []) ++ entries.map fun entry => encodeText entry.1

/-- The appends return, and the file has everything. Nothing appended to no file is no file. -/
def KeepsEverything (name : String) (entries : List (String × Nonce)) (files : Files) : Prop :=
  ∃ after, (forEach (fun entry => appendText settings name entry.1 entry.2) entries).run files = .ok () after ∧
    match textsOf (read settings name files) entries with
    | [] => read settings name after = read settings name files
    | texts => ∃ content, read settings name after = .ok content ∧ Lines texts content

variable {settings}

/-- A further text makes the file longer. -/
theorem lines_longer {before text content : Bytes} {more : List Bytes} (lines : Lines (before::text::more) content) :
    before.length < content.length := by
  have joined : newline.intercalate (before::text::more) = before ++ newline ++ newline.intercalate (text::more) := by
    simp [List.intercalate]
  have least : before.length < (newline.intercalate (before::text::more)).length := by
    rw [joined,List.length_append,List.length_append]
    unfold newline
    simp only [List.length_singleton]
    omega
  rcases lines with rfl | rfl
  · exact least
  · rw [List.length_append]
    omega

/-- No append changes what the file has. -/
theorem appends_keep {name : String} {entries : List (String × Nonce)} {files after : Files}
    (done : (forEach (fun entry => appendText settings name entry.1 entry.2) entries).run files = .ok () after) :
    read settings name after = read settings name files := by
  have rounds : ∀ entry : String × Nonce, Keeps (read settings name) (appendText settings name entry.1 entry.2) := by
    intro entry
    exact appendText_keeps name entry.1 entry.2
  have keeps : read settings name (final ((forEach _ entries).run files)) = _ := Keeps.forEach rounds entries files
  rw [done] at keeps
  exact keeps

theorem nothing_appended (name : String) (files : Files) : KeepsEverything settings name [] files := by
  refine ⟨files,rfl,?_⟩
  unfold textsOf
  cases before : read settings name files with
  | error raised => rfl
  | ok content => exact ⟨content,rfl,Or.inl (by simp [List.intercalate])⟩

theorem appended_lost {name : String} {entry : String × Nonce} {rest : List (String × Nonce)} {files : Files} :
    ¬ KeepsEverything settings name (entry::rest) files := by
  intro ⟨after,done,kept⟩
  have same := appends_keep done
  unfold textsOf at kept
  cases before : read settings name files with
  | error raised =>
    rw [before] at kept same
    simp only [List.map_cons,List.nil_append] at kept
    obtain ⟨content,found,_⟩ := kept
    rw [same] at found
    cases found
  | ok content =>
    rw [before] at kept same
    simp only [List.map_cons,List.singleton_append] at kept
    obtain ⟨content,found,lines⟩ := kept
    rw [same] at found
    cases found
    exact Nat.lt_irrefl _ (lines_longer lines)

end law

/-- The file has everything that was appended only if nothing was. -/
theorem append_keeps_iff (settings : Settings) (name : String) (entries : List (String × Nonce)) (files : Files) :
    KeepsEverything settings name entries files ↔ entries = [] := by
  cases entries with
  | nil => exact ⟨fun _ => rfl,fun _ => nothing_appended name files⟩
  | cons entry rest => exact ⟨fun kept => absurd kept appended_lost,fun none => by cases none⟩

/-- The first entry of a log cannot be read. -/
theorem first_entry_lost : ¬ KeepsEverything remoteSettings "log.txt" [("started",zeroNonce)] (fun _ => none) := appended_lost

end FinmarsWorkflow.Encrypted
