import Doctest.Shell.Call
import Doctest.Shell.Mode

/-! Programs that make, change or name files. -/
namespace Doctest.Shell.FileWork

/-- The last part of a path, without an ending. -/
def baseName (path ending : Text) : Text :=
  let parts := (Doctest.Text.splitOn '/' path).filter (!·.isEmpty)
  let last := parts.getLastD (if path.isEmpty then [] else ['/'])
  if ending.length < last.length && ending.isSuffixOf last then last.take (last.length - ending.length)
  else last

def basename (c : Call) : Option Reply :=
  let table : OptionTable :=
    ⟨["a", "z"], ["s"], [("multiple", "a"), ("suffix", "s"), ("zero", "z")], true⟩
  c.withOptions table 1 fun os operands =>
    let ends : Text := if os.has "z" then ['\x00'] else ['\n']
    let all (paths : List Text) (ending : Text) : Option Reply :=
      some (c.reply (paths.flatMap fun path => baseName path ending ++ ends) 0)
    match operands with
    | [] => some (c.refuse (textOf "missing operand") 1)
    | path :: rest =>
      if os.has "a" || os.has "s" then all operands ((os.value? "s").getD [])
      else
        match rest with
        | _ :: extra :: _ => some (c.refuse (textOf "extra operand " ++ Call.quoted extra) 1)
        | rest => all [path] (rest.headD [])

def dirname (c : Call) : Option Reply :=
  c.withOptions ⟨["z"], [], [("zero", "z")], false⟩ 1 fun os operands =>
    let ends : Text := if os.has "z" then ['\x00'] else ['\n']
    let dirOf (path : Text) : Text := match (pathOf path).parent? with
      | some p => if p.isEmpty then ['.'] else Octets.ofBytes p.bytes
      | none => if path.head? = some '/' then ['/'] else ['.']
    if operands.isEmpty then some (c.refuse (textOf "missing operand") 1)
    else some (c.reply (operands.flatMap fun o => dirOf o ++ ends) 0)

/-- A word in simple quotation marks. -/
def inMarks (o : Text) : Text :=
  '\'' :: o ++ ['\'']

/-- A complaint about what could not be done to a file. -/
def cannot (verb : String) (o : Text) (e : FileError) : Text :=
  textOf ("cannot " ++ verb ++ " ") ++ Call.about (inMarks o) e.words

def orCannot {α : Type} (verb : String) (o : Text) : Except FileError α → Except Text α
  | .ok a => .ok a
  | .error e => .error (cannot verb o e)

/-- Carries out a change of the files for each operand in turn, and prints what it says. -/
def change (c : Call) (operands : List Text)
    (f : FileTree → Text → Except Text (FileTree × List Text)) : Reply :=
  operands.foldl (fun r o =>
    match f r.files o with
    | .ok (files, lines) => { r with files, out := r.out.append (.ofText (unlinesOf lines)) }
    | .error words => { r with complaints := r.complaints ++ [words], status := 1 })
    (c.reply [] 0)

/-- The rights that a mode leads to, for a file that has some. -/
def modeAfter? (mode : Text) (before : Mode) : Option Mode :=
  if (mode.head?.map Char.isDigit).getD false then
    (Mode.octal? mode).bind fun n => if n < 4096 then some (.ofNat n) else none
  else before.change mode

/-- Whether a file can be executed after a change of its mode. -/
def executable? (mode : Text) (before : Bool) : Option Bool :=
  (modeAfter? mode (.ofNat (if before then 0o755 else 0o644))).map (·.isExecutable)

/-- A mode that takes something away looks like options. -/
def isMode (arg : Text) : Bool :=
  match arg with
  | '-' :: c :: _ => ['r', 'w', 'x', 'X', 's', 't'].contains c
  | _ => false

def chmod (c : Call) : Option Reply :=
  let table : OptionTable :=
    ⟨["c", "f", "R", "v"], [], [("recursive", "R"), ("silent", "f"), ("verbose", "v")], false⟩
  let modes := c.args.filter isMode
  (c.withArgs (c.args.filter (!isMode ·))).withOptions table 1 fun os operands =>
    match modes ++ operands with
    | [] => some (c.refuse (textOf "missing operand") 1)
    | [mode] => some (c.refuse (textOf "missing operand after " ++ Call.quoted mode) 1)
    | mode :: operands =>
      if (executable? mode false).isNone then
        some (c.refuse (textOf "invalid mode: " ++ Call.quoted mode) 1)
      else
        some (change c operands fun files o => do
          let e : FileEntry ← orCannot "access" o (files.find (pathOf o))
          let names ← orCannot "access" o (files.resolve (pathOf o))
          let isMeant (path : List Bytes) : Bool :=
            path = names || (os.has "R" && e == FileEntry.directory && names.isPrefixOf path)
          let changed : FileEntry → FileEntry
            | .file contents isExecutable =>
              .file contents ((executable? mode isExecutable).getD isExecutable)
            | e => e
          let entries := files.entries.map fun (path, e) => (path, if isMeant path then changed e else e)
          pure ({ files with entries }, []))

/-- The names that a path leads to where nothing on the way leads elsewhere. -/
def homeNames (files : FileTree) (o : Text) : List Bytes :=
  let p := pathOf o
  if p.isAbsolute then p.names else files.home ++ p.names

def mkdir (c : Call) : Option Reply :=
  let table : OptionTable :=
    ⟨["p", "v", "Z"], ["m"], [("parents", "p"), ("verbose", "v"), ("mode", "m")], false⟩
  c.withOptions table 1 fun os operands =>
    let made (o : Text) : List Text :=
      if os.has "v" then [textOf "mkdir: created directory " ++ inMarks o] else []
    let failed (o : Text) (e : FileError) : Text :=
      textOf "cannot create directory " ++ Call.about (Call.quoted o) e.words
    if operands.isEmpty then some (c.refuse (textOf "missing operand") 1)
    else
      some (change c operands fun files o =>
        match files.resolve (pathOf o) with
        | .error e =>
          if os.has "p" && e = .notFound && !o.isEmpty then
            .ok (files.makeDirectories (homeNames files o), made o)
          else .error (failed o e)
        | .ok names =>
          match files.at? names, os.has "p" with
          | none, _ => .ok (files.set names .directory, made o)
          | some .directory, true => .ok (files, [])
          | some _, _ => .error (failed o .alreadyExists))

def isEmptyDirectory (files : FileTree) (names : List Bytes) : Bool :=
  !(files.entries.any fun (path, _) => names.isPrefixOf path && path.length != names.length)

/-- Removes an empty directory. -/
def removeDirectory (files : FileTree) (o : Text) : Except FileError FileTree := do
  let names ← files.resolve (pathOf o)
  match files.at? names with
  | none => .error .notFound
  | some .directory => if isEmptyDirectory files names then .ok (files.remove names) else .error .notEmpty
  | some _ => .error .notDirectory

/-- Removes empty directories one after another, up to the first that cannot be removed. -/
def removeEach (r : Reply) : List Text → Reply
  | [] => r
  | o :: rest =>
    match removeDirectory r.files o with
    | .ok files => removeEach { r with files } rest
    | .error e =>
      let words := textOf "failed to remove " ++ Call.about (inMarks o) e.words
      { r with complaints := r.complaints ++ [words], status := 1 }

def rmdir (c : Call) : Option Reply :=
  let table : OptionTable := ⟨["p", "v"], [], [("parents", "p"), ("verbose", "v")], false⟩
  c.withOptions table 1 fun os operands =>
    let parents (o : Text) : List Text :=
      let parts := (Doctest.Text.splitOn '/' o).filter (!·.isEmpty)
      (List.range' 1 parts.length).reverse.map fun n => Doctest.Text.joinWith '/' (parts.take n)
    if operands.isEmpty then some (c.refuse (textOf "missing operand") 1)
    else
      some (operands.foldl (fun r o => removeEach r (if os.has "p" then parents o else [o])) (c.reply [] 0))

def rm (c : Call) : Option Reply :=
  let table : OptionTable := ⟨["d", "f", "i", "I", "r", "R", "v"], [],
    [("force", "f"), ("recursive", "r"), ("dir", "d"), ("verbose", "v")], false⟩
  c.withOptions table 1 fun os operands =>
    let isDeep := os.has "r" || os.has "R"
    if operands.isEmpty && !os.has "f" then some (c.refuse (textOf "missing operand") 1)
    else
      some (change c operands fun files o => do
        let isOwn := [['.'], ['.', '.']].contains (baseName o [])
        if isOwn && isDeep then
          .error (textOf "refusing to remove '.' or '..' directory: skipping " ++ inMarks o)
        match files.resolve (pathOf o) with
        | .error e => if os.has "f" then .ok (files, []) else .error (cannot "remove" o e)
        | .ok names =>
          let removed (word : String) : FileTree × List Text :=
            (files.remove names, if os.has "v" then [textOf word ++ inMarks o] else [])
          match files.at? names with
          | none => if os.has "f" then .ok (files, []) else .error (cannot "remove" o .notFound)
          | some .directory =>
            if isDeep then .ok (removed "removed directory ")
            else if !os.has "d" then .error (cannot "remove" o .isDirectory)
            else if isEmptyDirectory files names then .ok (removed "removed directory ")
            else .error (cannot "remove" o .notEmpty)
          | some _ => .ok (removed "removed "))

def touch (c : Call) : Option Reply :=
  let table : OptionTable := ⟨["a", "c", "f", "h", "m"], ["d", "r", "t", "time"],
    [("no-create", "c"), ("date", "d"), ("reference", "r"), ("no-dereference", "h")], false⟩
  c.withOptions table 1 fun os operands =>
    if operands.isEmpty then some (c.refuse (textOf "missing file operand") 1)
    else
      some (change c operands fun files o =>
        if os.has "c" || o = ['-'] then .ok (files, [])
        else
          match files.write (pathOf o) true [] with
          | .ok files => .ok (files, [])
          | .error .isDirectory => .ok (files, [])
          | .error e => .error (cannot "touch" o e))

/-- The place of a file that is put into a directory or under a name. -/
def placeOf (files : FileTree) (source target : Text) : Text :=
  if files.isDirectory (pathOf target) then
    (if target.getLast? = some '/' then target else target ++ ['/']) ++ baseName source []
  else target

/-- Puts an entry and all below it under other names. -/
def copyTree (files : FileTree) (names target : List Bytes) : FileTree :=
  (files.entries.filter fun e => names.isPrefixOf e.1).foldl (fun t (path, e) =>
    t.set (target ++ path.drop names.length) e) files

/-- What programs have in common that put files elsewhere: the names of the source and the target, and what
is at the source. It is said in some way that nothing can be put at the target. -/
def endpoints (failed : FileError → Text) (files : FileTree) (source target : Text) :
    Except Text (List Bytes × List Bytes × FileEntry) := do
  let e ← orCannot "stat" source (files.find (pathOf source))
  let names ← orCannot "stat" source (files.resolve (pathOf source))
  let isFile := e != FileEntry.directory
  if isFile && target.getLast? = some '/' && !files.isDirectory (pathOf target) then
    .error (failed .notDirectory)
  match files.resolve (pathOf target) with
  | .error err => .error (failed err)
  | .ok place =>
    if names = place ∧ isFile then
      .error (inMarks source ++ textOf " and " ++ inMarks target ++ textOf " are the same file")
    else pure (names, place, e)

def notOver (source target : Text) : Text :=
  textOf "cannot overwrite non-directory " ++ inMarks target ++ textOf " with directory " ++
    inMarks source

def copy (withDirectories : Bool) (files : FileTree) (source target : Text) : Except Text FileTree := do
  if files.isDirectory (pathOf source) && !withDirectories then
    .error (textOf "-r not specified; omitting directory " ++ inMarks source)
  let (names, place, e) ← endpoints (cannot "create regular file" target) files source target
  match e, files.at? place with
  | .directory, some (.file ..) => .error (notOver source target)
  | .directory, _ =>
    if names.isPrefixOf place then
      .error (textOf "cannot copy a directory, " ++ inMarks source ++ textOf ", into itself, " ++
        inMarks target)
    else .ok (copyTree files names place)
  | .device _, _ => .ok (files.set place (.file [] false))
  | .file contents _, some (.file _ isExecutable) => .ok (files.set place (.file contents isExecutable))
  | e, _ => .ok (files.set place e)

def move (files : FileTree) (source target : Text) : Except Text FileTree := do
  let cannotMove (words : String) : Text :=
    textOf "cannot move " ++ inMarks source ++ textOf words ++ inMarks target
  let (names, place, e) ← endpoints (fun e => Call.about (cannotMove " to ") e.words) files source target
  match e, files.at? place with
  | .directory, some (.file ..) => .error (notOver source target)
  | .directory, _ =>
    if names.isPrefixOf place then .error (cannotMove " to a subdirectory of itself, ")
    else .ok ((copyTree files names place).remove names)
  | e, _ => .ok ((files.remove names).set place e)

/-- Carries out what is done to sources and a target, which is the last operand or an option. -/
def towards (c : Call) (os : Options) (operands : List Text) (word : String)
    (f : FileTree → Text → Text → Except Text FileTree) : Reply :=
  let (sources, target) := match os.value? "t" with
    | some dir => (operands, some dir)
    | none => (operands.dropLast, operands.getLast?)
  match sources, target with
  | _, none => c.refuse (textOf "missing file operand") 1
  | [], some only => c.refuse (textOf "missing destination file operand after " ++ inMarks only) 1
  | sources, some target =>
    let isDirectory := c.files.isDirectory (pathOf target)
    if (1 < sources.length || os.has "t") && !isDirectory then
      let cause := if c.files.exists? (pathOf target) then FileError.notDirectory else .notFound
      c.fail (textOf "target " ++ Call.about (inMarks target) cause.words) 1
    else
      change c sources fun files o => do
        let place := placeOf files o target
        if os.has "n" && files.exists? (pathOf place) then .ok (files, [])
        else
          let files ← f files o place
          pure (files, if os.has "v" then [textOf word ++ inMarks o ++ textOf " -> " ++ inMarks place]
            else [])

def cp (c : Call) : Option Reply :=
  let table : OptionTable := ⟨["a", "d", "f", "H", "i", "L", "n", "p", "P", "r", "R", "T", "u", "v", "x"],
    ["t"], [("archive", "a"), ("force", "f"), ("no-clobber", "n"), ("recursive", "r"), ("verbose", "v"),
      ("update", "u"), ("target-directory", "t")], false⟩
  c.withOptions table 1 fun os operands =>
    let isDeep := os.has "r" || os.has "R" || os.has "a"
    some (towards c os operands "" fun files source target =>
      match c.machine.place source with
      | .pipe _ unread =>
        orCannot "create regular file" target
          (files.write (pathOf target) false (Octets.toBytes unread.text))
      | .path p => copy isDeep files (if p.isEmpty then source else p) target
      | _ => .error (cannot "stat" source .notFound))

def mv (c : Call) : Option Reply :=
  let table : OptionTable := ⟨["f", "i", "n", "T", "u", "v"], ["t"],
    [("force", "f"), ("no-clobber", "n"), ("verbose", "v"), ("target-directory", "t")], false⟩
  c.withOptions table 1 fun os operands => some (towards c os operands "renamed " move)

/-- Gives a file another name besides its own. What is written under one of them is not seen under the
other. -/
def ln (c : Call) : Option Reply :=
  let table : OptionTable := ⟨["f", "n", "s", "T", "v"], ["t"],
    [("force", "f"), ("symbolic", "s"), ("verbose", "v")], false⟩
  c.withOptions table 1 fun os operands =>
    let operands := if operands.length = 1 then operands ++ [['.']] else operands
    let kind := if os.has "s" then "symbolic" else "hard"
    let r := towards c os operands "" fun files source target => do
      match files.find (pathOf source) with
      | .error e => .error (textOf "failed to access " ++ Call.about (inMarks source) e.words)
      | .ok .directory =>
        if !os.has "s" then .error (inMarks source ++ textOf ": hard link not allowed for directory")
      | .ok _ => pure ()
      if files.exists? (pathOf target) && !os.has "f" then
        .error (textOf ("failed to create " ++ kind ++ " link ") ++
          Call.about (inMarks target) FileError.alreadyExists.words)
      copy true files source target
    some r

/-- Cuts files to a size, or fills them up with null characters. -/
def truncate (c : Call) : Option Reply :=
  let table : OptionTable := ⟨["c", "o"], ["r", "s"], [("size", "s"), ("reference", "r")], false⟩
  c.withOptions table 1 fun os operands =>
    match os.value? "s" with
    | none => some (c.refuse (textOf "you must specify either " ++ Call.quoted (textOf "--size") ++
        textOf " or " ++ Call.quoted (textOf "--reference")) 1)
    | some size =>
      match natOf? size with
      | none => some (c.fail (textOf "Invalid number: " ++ Call.quoted size) 1)
      | some n =>
        if operands.isEmpty then some (c.refuse (textOf "missing file operand") 1)
        else
          some (change c operands fun files o =>
            let old := ((files.read (pathOf o)).toOption).getD []
            match files.write (pathOf o) false ((old ++ List.replicate n 0).take n) with
            | .ok files => .ok (files, [])
            | .error e => .error (textOf "cannot open " ++
                Call.about (inMarks o) ("for writing: " ++ e.words)))

/-- Says at which byte two files begin to differ. -/
def cmp (c : Call) : Option Reply :=
  let table : OptionTable := ⟨["b", "l", "s"], ["i", "n"], [("silent", "s"), ("quiet", "s")], false⟩
  c.withOptions table 2 fun os operands =>
    match operands with
    | [a, b] => do
      let (found, err) ← c.texts [a, b]
      match found.map (·.2), err with
      | [x, y], [] =>
        let n := ((x.zip y).takeWhile fun (p, q) => p = q).length
        let line := (x.take n).count '\n' + 1
        if x = y then some (c.reply [] 0)
        else if os.has "s" then some (c.reply [] 1)
        else if n < min x.length y.length then
          some (c.reply (a ++ ' ' :: b ++ textOf " differ: char " ++ digits (n + 1) ++ textOf ", line " ++
            digits line ++ ['\n']) 1)
        else
          let name := if x.length < y.length then a else b
          some (c.fail (textOf "EOF on " ++ name ++ (if n = 0 then textOf " which is empty" else
            textOf " after byte " ++ digits n ++
              (if (x.take n).getLast? = some '\n' then textOf ", line " ++ digits (line - 1)
              else textOf ", in line " ++ digits line))) 1)
      | _, err => some { c.reply [] 2 with complaints := err }
    | _ => some (c.refuse (textOf "missing operand") 2)

/-- A name of so many letters for the number `n`, behind a start. -/
def temporaryName (start : Text) (size n : Nat) : Text :=
  let letters := Nat.toDigits 16 n
  start ++ List.replicate (size - letters.length) 'A' ++ letters

/-- A name that no file has. -/
def freeName (files : FileTree) (start : Text) (size : Nat) : Text :=
  let names := (List.range (files.entries.length + 1)).map (temporaryName start size)
  (names.find? fun name => !files.exists? (pathOf name)).getD start

def mktemp (c : Call) : Option Reply :=
  let table : OptionTable := ⟨["d", "q", "t", "u"], ["p", "suffix"],
    [("directory", "d"), ("quiet", "q"), ("dry-run", "u"), ("tmpdir", "p")], false⟩
  c.withOptions table 1 fun os operands =>
    let pattern := operands.headD (textOf "tmp.XXXXXXXXXX")
    let start := (pattern.reverse.dropWhile (· = 'X')).reverse
    if pattern.length < start.length + 3 then
      some (c.fail (textOf "too few X's in template " ++ Call.quoted pattern) 1)
    else
      let dir : Text := match os.value? "p" with
        | some dir => dir ++ ['/']
        | none => if operands.isEmpty || os.has "t" then textOf "/tmp/" else []
      let name := freeName c.files (dir ++ start) (pattern.length - start.length)
      let made : Except FileError FileTree := do
        let names ← c.files.resolve (pathOf name)
        pure (if os.has "u" then c.files
          else c.files.set names (if os.has "d" then .directory else .file [] false))
      match made with
      | .ok files => some { c.reply (name ++ ['\n']) 0 with files }
      | .error e => some (c.fail (textOf "failed to create file via template " ++
          Call.about (Call.quoted (dir ++ pattern)) e.words) 1)

end Doctest.Shell.FileWork
