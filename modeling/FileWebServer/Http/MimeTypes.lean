import FileWebServer.Bytes

namespace FileWebServer

structure MimeEntry where
  ext : Bytes
  mime : Bytes
  deriving DecidableEq, Repr

def mimeEntry (ext mime : String) : MimeEntry := ⟨bytes ext, bytes mime⟩

def mimeTable : List MimeEntry :=
  [ mimeEntry ".aac" "audio/aac",
    mimeEntry ".avif" "image/avif",
    mimeEntry ".avi" "video/x-msvideo",
    mimeEntry ".bmp" "image/bmp",
    mimeEntry ".bz2" "application/x-bzip2",
    mimeEntry ".csv" "text/csv",
    mimeEntry ".doc" "application/msword",
    mimeEntry ".docx" "application/vnd.openxmlformats-officedocument.wordprocessingml.document",
    mimeEntry ".eot" "application/vnd.ms-fontobject",
    mimeEntry ".epub" "application/epub+zip",
    mimeEntry ".flac" "audio/flac",
    mimeEntry ".flv" "video/x-flv",
    mimeEntry ".gif" "image/gif",
    mimeEntry ".gz" "application/gzip",
    mimeEntry ".htm" "text/html; charset=utf-8",
    mimeEntry ".html" "text/html; charset=utf-8",
    mimeEntry ".ico" "image/x-icon",
    mimeEntry ".jpeg" "image/jpeg",
    mimeEntry ".jpg" "image/jpeg",
    mimeEntry ".js" "application/javascript",
    mimeEntry ".json" "application/json",
    mimeEntry ".m4a" "audio/mp4",
    mimeEntry ".mkv" "video/x-matroska",
    mimeEntry ".mov" "video/quicktime",
    mimeEntry ".mp3" "audio/mpeg",
    mimeEntry ".mp4" "video/mp4",
    mimeEntry ".mpeg" "video/mpeg",
    mimeEntry ".mpg" "video/mpeg",
    mimeEntry ".ogg" "audio/ogg",
    mimeEntry ".otf" "font/otf",
    mimeEntry ".pdf" "application/pdf",
    mimeEntry ".png" "image/png",
    mimeEntry ".ppt" "application/vnd.ms-powerpoint",
    mimeEntry ".pptx" "application/vnd.openxmlformats-officedocument.presentationml.presentation",
    mimeEntry ".rar" "application/vnd.rar",
    mimeEntry ".svg" "image/svg+xml",
    mimeEntry ".svgz" "image/svg+xml",
    mimeEntry ".swf" "application/x-shockwave-flash",
    mimeEntry ".tar" "application/x-tar",
    mimeEntry ".tif" "image/tiff",
    mimeEntry ".tiff" "image/tiff",
    mimeEntry ".toml" "application/toml",
    mimeEntry ".ttf" "font/ttf",
    mimeEntry ".txt" "text/plain",
    mimeEntry ".wav" "audio/wave",
    mimeEntry ".webm" "video/webm",
    mimeEntry ".webp" "image/webp",
    mimeEntry ".woff" "font/woff",
    mimeEntry ".woff2" "font/woff2",
    mimeEntry ".xls" "application/vnd.ms-excel",
    mimeEntry ".xlsx" "application/vnd.openxmlformats-officedocument.spreadsheetml.sheet",
    mimeEntry ".xml" "application/xml",
    mimeEntry ".yaml" "application/yaml",
    mimeEntry ".yml" "application/yaml",
    mimeEntry ".zip" "application/zip" ]

def fallbackMime : Bytes := bytes "application/octet-stream"

/-- `std::lower_bound` over the half-open range of `count` entries from `first` on. -/
def lowerBound (ext : Bytes) : Nat → Nat → Nat → Nat
  | 0, first, _ => first
  | fuel + 1, first, count =>
    if count = 0 then first
    else
      let step := count / 2
      match mimeTable[first + step]? with
      | none => first
      | some e =>
        if e.ext < ext then lowerBound ext fuel (first + step + 1) (count - (step + 1))
        else lowerBound ext fuel first step

/-- The text from the last dot on, when there is one. -/
def extension (path : Bytes) : Option Bytes :=
  if dot ∈ path then some (dot :: (path.reverse.takeWhile (· ≠ dot)).reverse) else none

def detectMimeType (path : Bytes) : Bytes :=
  match extension path with
  | none => fallbackMime
  | some ext =>
    match mimeTable[lowerBound ext mimeTable.length 0 mimeTable.length]? with
    | some e => if e.ext = ext then e.mime else fallbackMime
    | none => fallbackMime

end FileWebServer
