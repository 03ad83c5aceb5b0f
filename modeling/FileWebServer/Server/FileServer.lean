import FileWebServer.Libc
import FileWebServer.Http.MimeTypes

namespace FileWebServer
open Search

inductive FileKind where
  | regular
  | directory
  | symlink
  | other
  deriving DecidableEq, Repr

/-- The fields of `struct stat` that the source reads. -/
structure Stat where
  kind : FileKind
  size : Int
  mtime : Int
  deriving DecidableEq, Repr

/-- The file system calls, as they answer while one event is handled. A failed call is
`none`; `opendir` comes with the names that `readdir` then returns. -/
structure FileSystem where
  lstat : Bytes → Option Stat
  stat : Bytes → Option Stat
  realpath : Bytes → Option Bytes
  openRdonly : Bytes → Option Nat
  opendir : Bytes → Option (List Bytes)

/-- A file system on which every call fails. -/
def FileSystem.void : FileSystem :=
  ⟨fun _ => none, fun _ => none, fun _ => none, fun _ => none, fun _ => none⟩

structure FileInfo where
  fd : Int
  size : Int
  lastModified : Int
  mimeType : Bytes
  resolvedPath : Bytes
  deriving DecidableEq, Repr

inductive FileError where
  | notFound
  | forbidden
  | badRequest
  | isDirectory
  deriving DecidableEq, Repr

structure DirEntry where
  name : Bytes
  isDirectory : Bool
  size : Int
  lastModified : Int
  deriving DecidableEq, Repr

structure FileServer where
  rootDir : Bytes
  deriving DecidableEq, Repr

namespace FileServer

def create (sys : FileSystem) (rootDir : Bytes) : FileServer :=
  ⟨(sys.realpath rootDir).getD rootDir⟩

/-- Step 1 of `normalize`. A `%` counts only when two more bytes follow it. -/
def percentDecode : Bytes → Bytes
  | [] => []
  | [a] => [a]
  | [a, b] => [a, b]
  | c :: x :: y :: rest =>
    let (val, consumed) := strtol16 (if x = 0 then [] else if y = 0 then [x] else [x, y])
    if c = percent ∧ consumed = 2 ∧ 0 < val then
      UInt8.ofNat val.toNat :: percentDecode rest
    else c :: percentDecode (x :: y :: rest)

def isForbidden (c : UInt8) : Bool := c == 0 || (c < 32 && c != tab)

/-- Steps 3 and 4 of `normalize` on the part of the text from `start` on. The outer `none`
is a loop that has not ended when the fuel is used up, the inner one a rejected path. -/
def segmentLoop : Nat → Bytes → List Bytes → Option (Option (List Bytes))
  | 0, _, _ => none
  | fuel + 1, rest, parts =>
    let rest := rest.dropWhile (· = slash)
    if rest = [] then some (some parts)
    else
      let seg := rest.takeWhile (· ≠ slash)
      if seg = [] then segmentLoop fuel rest parts
      else
        let next := rest.drop (seg.length + 1)
        if seg = bytes "." then segmentLoop fuel next parts
        else if seg = bytes ".." then
          if parts = [] then some none else segmentLoop fuel next parts.dropLast
        else segmentLoop fuel next (parts ++ [seg])

def isHidden (part : Bytes) : Bool := part.head? == some dot

/-- The normalized path, or the empty string for a path that is rejected. -/
def normalize (path : Bytes) : Bytes :=
  let decoded := percentDecode path
  if decoded.any isForbidden then []
  else match segmentLoop (decoded.length + 1) decoded [] with
    | some (some parts) =>
      if parts.any isHidden then []
      else if parts = [] then [slash]
      else parts.flatMap (slash :: ·)
    | _ => []

def isWithinRoot (resolved root : Bytes) : Bool :=
  if find root resolved ≠ some 0 then false
  else if resolved.length = root.length then true
  else resolved[root.length]? == some slash

/-- The end of `open`, on the path and the file status that the checks have settled on. -/
def openRegular (sys : FileSystem) (fullPath : Bytes) (st : Stat) : Except FileError FileInfo :=
  if st.kind ≠ .regular then .error .forbidden
  else match sys.openRdonly fullPath with
    | none => .error .notFound
    | some fd => .ok ⟨fd, st.size, st.mtime, detectMimeType fullPath, fullPath⟩

/-- The middle of `open`, where a directory gives way to its index page. -/
def openIndex (sys : FileSystem) (fullPath : Bytes) (st : Stat) : Except FileError FileInfo :=
  if st.kind = .directory then
    let indexPath := fullPath ++ bytes "/index.html"
    match sys.stat indexPath with
    | some ist =>
      if ist.kind = .regular then openRegular sys indexPath ist else .error .isDirectory
    | none => .error .isDirectory
  else openRegular sys fullPath st

/-- `FileServer::open`. Only a symbolic link in the last component has its target checked. -/
def openPath (sys : FileSystem) (server : FileServer) (requestPath : Bytes) :
    Except FileError FileInfo :=
  let normalized := normalize requestPath
  if normalized = [] then .error .badRequest
  else
    let fullPath := server.rootDir ++ normalized
    match sys.lstat fullPath with
    | none => .error .notFound
    | some st =>
      if st.kind = .symlink then
        match sys.realpath fullPath with
        | none => .error .forbidden
        | some resolved =>
          if isWithinRoot resolved server.rootDir then
            match sys.stat fullPath with
            | none => .error .notFound
            | some st => openIndex sys fullPath st
          else .error .forbidden
      else openIndex sys fullPath st

/-- An integer quotient rounded to the nearest, ties to even. -/
def roundHalfEven (num den : Nat) : Nat :=
  if 2 * (num % den) < den ∨ (2 * (num % den) = den ∧ num / den % 2 = 0) then num / den
  else num / den + 1

/-- The `double` that an integer converts to. -/
def asDouble (n : Nat) : Nat :=
  if n < 2 ^ 53 then n
  else roundHalfEven n (2 ^ (n.log2 - 52)) * 2 ^ (n.log2 - 52)

/-- `printf` with `%.1f` of a size divided by a power of two. -/
def oneDecimal (size : Int) (unit : Nat) : Bytes :=
  let tenths := roundHalfEven (10 * asDouble size.toNat) unit
  decimal (tenths / 10) ++ bytes "." ++ decimal (tenths % 10)

def formatSize (size : Int) : Bytes :=
  if size < 1024 then decimalInt size ++ bytes " B"
  else if size < 1024 * 1024 then oneDecimal size 1024 ++ bytes " KB"
  else if size < 1024 * 1024 * 1024 then oneDecimal size (1024 * 1024) ++ bytes " MB"
  else oneDecimal size (1024 * 1024 * 1024) ++ bytes " GB"

/-- The modification time of a directory entry in local time. -/
def formatLocalTime (libc : Libc) (t : Int) : Bytes :=
  let tm := libc.localtimeR t
  zeroPadded 4 (tm.year + 1900) ++ bytes "-" ++ zeroPadded 2 (tm.mon + 1) ++ bytes "-" ++
    zeroPadded 2 tm.mday ++ bytes " " ++ zeroPadded 2 tm.hour ++ bytes ":" ++
    zeroPadded 2 tm.min

def escapeChar (c : UInt8) : Bytes :=
  if c = 38 then bytes "&amp;"
  else if c = 60 then bytes "&lt;"
  else if c = 62 then bytes "&gt;"
  else if c = 34 then bytes "&quot;"
  else if c = 39 then bytes "&#39;"
  else [c]

def htmlEscape (s : Bytes) : Bytes := s.flatMap escapeChar

/-- `std::isalnum` in the C locale. -/
def isalnum (c : UInt8) : Bool :=
  (48 ≤ c && c ≤ 57) || (65 ≤ c && c ≤ 90) || (97 ≤ c && c ≤ 122)

def hexUpper (n : UInt8) : UInt8 := if n < 10 then 48 + n else 55 + n

def encodeChar (c : UInt8) : Bytes :=
  if isalnum c ∨ c = 45 ∨ c = 95 ∨ c = dot ∨ c = 126 ∨ c = slash then [c]
  else if c = space then bytes "%20"
  else [percent, hexUpper (c >>> 4), hexUpper (c &&& 15)]

def urlEncodePath (s : Bytes) : Bytes := s.flatMap encodeChar

/-- The order of the listing: directories first, then by name. -/
def entryLess (a b : DirEntry) : Bool :=
  if a.isDirectory ≠ b.isDirectory then a.isDirectory else decide (a.name < b.name)

def dirEntry (sys : FileSystem) (dirPath name : Bytes) : Option DirEntry :=
  if name = [] ∨ isHidden name then none
  else (sys.stat (dirPath ++ name)).map fun st =>
    ⟨name, st.kind = .directory, st.size, st.mtime⟩

def listDirectory (sys : FileSystem) (server : FileServer) (requestPath : Bytes) :
    List DirEntry :=
  let normalized := normalize requestPath
  if normalized = [] then []
  else
    let path := server.rootDir ++ normalized
    let dirPath := if path.getLast? = some slash then path else path ++ [slash]
    match sys.opendir dirPath with
    | none => []
    | some names =>
      (names.filterMap (dirEntry sys dirPath)).insertionSort fun a b => entryLess b a = false

def css : Bytes :=
  bytes "\n" ++
  bytes "*\x7bmargin:0;padding:0;box-sizing:border-box\x7d\n" ++
  bytes "body\x7bfont-family:-apple-system,BlinkMacSystemFont,\"Segoe UI\",Helvetica,Arial,sans-serif;" ++
  bytes "background:#0d1117;color:#e6edf3;line-height:1.6;min-height:100vh\x7d\n" ++
  bytes ".container\x7bmax-width:960px;margin:0 auto;padding:32px 24px\x7d\n" ++
  bytes "h1\x7bfont-size:24px;font-weight:600;margin-bottom:24px;color:#e6edf3;" ++
  bytes "display:flex;align-items:center;gap:10px\x7d\n" ++
  bytes "h1 .icon\x7bfont-size:26px\x7d\n" ++
  bytes "table\x7bwidth:100%;border-collapse:collapse;background:#161b22;" ++
  bytes "border:1px solid #30363d;border-radius:8px;overflow:hidden\x7d\n" ++
  bytes "thead th\x7btext-align:left;padding:12px 16px;font-size:13px;font-weight:600;" ++
  bytes "color:#8b949e;border-bottom:1px solid #30363d;background:#0d1117;" ++
  bytes "user-select:none\x7d\n" ++
  bytes "tbody tr\x7bborder-bottom:1px solid #21262d;transition:background .12s ease\x7d\n" ++
  bytes "tbody tr:last-child\x7bborder-bottom:none\x7d\n" ++
  bytes "tbody tr:hover\x7bbackground:#1c2128\x7d\n" ++
  bytes "td\x7bpadding:10px 16px;font-size:14px\x7d\n" ++
  bytes "td.name a\x7bcolor:#58a6ff;text-decoration:none;display:inline-flex;" ++
  bytes "align-items:center;gap:8px\x7d\n" ++
  bytes "td.name a:hover\x7bcolor:#79c0ff;text-decoration:underline\x7d\n" ++
  bytes "td.size\x7bcolor:#8b949e;font-variant-numeric:tabular-nums;width:100px\x7d\n" ++
  bytes "td.date\x7bcolor:#8b949e;font-variant-numeric:tabular-nums;width:170px\x7d\n" ++
  bytes "tr.parent td\x7bborder-bottom:1px solid #30363d;padding-top:10px;" ++
  bytes "padding-bottom:10px\x7d\n" ++
  bytes "tr.parent td.name a\x7bcolor:#e6edf3;font-weight:500\x7d\n" ++
  bytes ".icon-dir\x7bcolor:#58a6ff\x7d\n" ++
  bytes ".icon-file\x7bcolor:#8b949e\x7d\n" ++
  bytes "footer\x7bmargin-top:24px;text-align:center;font-size:12px;color:#484f58\x7d\n" ++
  bytes "@media(max-width:600px)\x7b.container\x7bpadding:16px 12px\x7d" ++
  bytes "h1\x7bfont-size:20px\x7dtd.date\x7bdisplay:none\x7dtd.size\x7bwidth:70px\x7d\x7d\n"

/-- The link of an entry: relative below the root page, absolute on it. -/
def entryHref (requestPath : Bytes) (showParent : Bool) (e : DirEntry) : Bytes :=
  let name := urlEncodePath e.name
  let href :=
    if showParent then name
    else if requestPath.getLast? = some slash then requestPath ++ name
    else requestPath ++ [slash] ++ name
  if e.isDirectory then href ++ [slash] else href

def entryRow (libc : Libc) (requestPath : Bytes) (showParent : Bool) (e : DirEntry) : Bytes :=
  bytes "<tr>\n<td class=\"name\"><a href=\"" ++ entryHref requestPath showParent e ++
    bytes "\">" ++
    (if e.isDirectory then bytes "<span class=\"icon-dir\">&#x1F4C2;</span> "
      else bytes "<span class=\"icon-file\">&#x1F4C4;</span> ") ++
    htmlEscape e.name ++ (if e.isDirectory then [slash] else []) ++ bytes "</a></td>\n" ++
    bytes "<td class=\"size\">" ++
    (if e.isDirectory then bytes "-" else formatSize e.size) ++ bytes "</td>\n" ++
    bytes "<td class=\"date\">" ++ formatLocalTime libc e.lastModified ++
    bytes "</td>\n</tr>\n"

def parentRow : Bytes :=
  bytes "<tr class=\"parent\">\n" ++
  bytes "<td class=\"name\"><a href=\"../\">&#x1F4C2; ../</a></td>\n" ++
  bytes "<td class=\"size\">-</td>\n" ++
  bytes "<td class=\"date\">-</td>\n</tr>\n"

def buildDirectoryHtml (libc : Libc) (requestPath : Bytes) (entries : List DirEntry)
    (showParent : Bool) : Bytes :=
  bytes "<!DOCTYPE html>\n<html lang=\"zh-CN\">\n<head>\n" ++
  bytes "<meta charset=\"utf-8\">\n" ++
  bytes "<meta name=\"viewport\" content=\"width=device-width, initial-scale=1\">\n" ++
  bytes "<title>Index of " ++ htmlEscape requestPath ++ bytes "</title>\n<style>\n" ++ css ++
  bytes "</style>\n</head>\n<body>\n<div class=\"container\">\n" ++
  bytes "<h1><span class=\"icon\">&#x1F4C1;</span> Index of " ++ htmlEscape requestPath ++
  bytes "</h1>\n<table>\n<thead>\n<tr>" ++
  bytes "<th>Name</th><th class=\"size\">Size</th><th class=\"date\">Modified</th>" ++
  bytes "</tr>\n</thead>\n<tbody>\n" ++
  (if showParent then parentRow else []) ++
  entries.flatMap (entryRow libc requestPath showParent) ++
  bytes "</tbody>\n</table>\n" ++
  bytes "<footer>web_server_cpp/1.0</footer>\n" ++
  bytes "</div>\n</body>\n</html>"

theorem openIndex_regular {sys : FileSystem} {path : Bytes} {st : Stat} {info : FileInfo}
    (h : openIndex sys path st = .ok info) : ∃ path' st', openRegular sys path' st' = .ok info := by
  unfold openIndex at h
  dsimp only at h
  split at h
  · split at h
    · split at h
      · exact ⟨_, _, h⟩
      · cases h
    · cases h
  · exact ⟨_, _, h⟩

/-- Whatever way `open` takes, it ends by opening a regular file. -/
theorem openPath_regular {sys : FileSystem} {server : FileServer} {path : Bytes} {info : FileInfo}
    (h : openPath sys server path = .ok info) :
    ∃ path' st', openRegular sys path' st' = .ok info := by
  unfold openPath at h
  dsimp only at h
  split at h
  · cases h
  · split at h
    · cases h
    · split at h
      · split at h
        · cases h
        · split at h
          · split at h
            · cases h
            · exact openIndex_regular h
          · cases h
      · exact openIndex_regular h

theorem openPath_info {sys : FileSystem} {server : FileServer} {path : Bytes} {info : FileInfo}
    (h : openPath sys server path = .ok info) :
    0 ≤ info.fd ∧ info.mimeType = detectMimeType info.resolvedPath := by
  obtain ⟨path', st, hr⟩ := openPath_regular h
  unfold openRegular at hr
  split at hr
  · cases hr
  · split at hr
    · cases hr
    · cases hr
      exact ⟨Int.natCast_nonneg _, rfl⟩

end FileServer

end FileWebServer
