import LinuxOS.Bytes

namespace LinuxOS.Http

def kHttpStatusText : List (Int × String) :=
  [(100,"Continue"),(101,"Switching Protocols"),(102,"Processing"),(103,"Early Hints"),(200,"OK"),
   (201,"Created"),(202,"Accepted"),(203,"Non-Authoritative Information"),(204,"No Content"),
   (205,"Reset Content"),(206,"Partial Content"),(207,"Multi-Status"),(208,"Already Reported"),
   (226,"IM Used"),(300,"Multiple Choices"),(301,"Moved Permanently"),(302,"Found"),
   (303,"See Other"),(304,"Not Modified"),(305,"Use Proxy"),(307,"Temporary Redirect"),
   (308,"Permanent Redirect"),(400,"Bad Request"),(401,"Unauthorized"),(402,"Payment Required"),
   (403,"Forbidden"),(404,"Not Found"),(405,"Method Not Allowed"),(406,"Not Acceptable"),
   (407,"Proxy Authentication Required"),(408,"Request Timeout"),(409,"Conflict"),(410,"Gone"),
   (411,"Length Required"),(412,"Precondition Failed"),(413,"Payload Too Large"),
   (414,"URI Too Long"),(415,"Unsupported Media Type"),(416,"Range Not Satisfiable"),
   (417,"Expectation Failed"),(418,"I'm a Teapot"),(421,"Misdirected Request"),
   (422,"Unprocessable Entity"),(423,"Locked"),(424,"Failed Dependency"),(425,"Too Early"),
   (426,"Upgrade Required"),(428,"Precondition Required"),(429,"Too Many Requests"),
   (431,"Request Header Fields Too Large"),(451,"Unavailable For Legal Reasons"),
   (500,"Internal Server Error"),(501,"Not Implemented"),(502,"Bad Gateway"),
   (503,"Service Unavailable"),(504,"Gateway Timeout"),(505,"HTTP Version Not Supported"),
   (506,"Variant Also Negotiates"),(507,"Insufficient Storage"),(508,"Loop Detected"),
   (510,"Not Extended"),(511,"Network Authentication Required")]

def kMimeTypes : List (String × String) :=
  [(".html","text/html; charset=utf-8"),(".htm","text/html; charset=utf-8"),
   (".css","text/css; charset=utf-8"),(".js","application/javascript; charset=utf-8"),
   (".mjs","application/javascript; charset=utf-8"),(".txt","text/plain; charset=utf-8"),
   (".csv","text/csv; charset=utf-8"),(".xml","application/xml; charset=utf-8"),
   (".json","application/json; charset=utf-8"),(".md","text/markdown; charset=utf-8"),
   (".png","image/png"),(".jpg","image/jpeg"),(".jpeg","image/jpeg"),(".gif","image/gif"),
   (".bmp","image/bmp"),(".webp","image/webp"),(".svg","image/svg+xml"),(".ico","image/x-icon"),
   (".woff","font/woff"),(".woff2","font/woff2"),(".ttf","font/ttf"),(".otf","font/otf"),
   (".mp3","audio/mpeg"),(".wav","audio/wav"),(".ogg","audio/ogg"),(".flac","audio/flac"),
   (".aac","audio/aac"),(".mp4","video/mp4"),(".webm","video/webm"),(".avi","video/x-msvideo"),
   (".mov","video/quicktime"),(".mkv","video/x-matroska"),(".zip","application/zip"),
   (".tar","application/x-tar"),(".gz","application/gzip"),(".7z","application/x-7z-compressed"),
   (".rar","application/vnd.rar"),(".pdf","application/pdf"),(".wasm","application/wasm"),
   (".bin","application/octet-stream"),(".exe","application/octet-stream")]

namespace Util

-- One step per separator; the fuel stands for the loop that stops at the end.
def splitFrom (src sep : Bytes) : Nat → Nat → List Bytes
  | 0,_ => []
  | fuel+1,offset =>
    if offset < src.length then
      match src.find sep offset with
      | some pos => src.substr offset (pos - offset) :: splitFrom src sep fuel (pos + sep.length)
      | none => [src.drop offset]
    else []

def split (src sep : Bytes) : List Bytes := splitFrom src sep src.length 0

def isalnum (ch : UInt8) : Bool := (48 ≤ ch ∧ ch ≤ 57) ∨ (65 ≤ ch ∧ ch ≤ 90) ∨ (97 ≤ ch ∧ ch ≤ 122)

def unreserved (ch : UInt8) : Bool := ch = 46 ∨ ch = 45 ∨ ch = 95 ∨ ch = 126 ∨ isalnum ch

-- One digit of "%02X".
def hexDigit (n : Nat) : UInt8 := UInt8.ofNat (if n < 10 then 48 + n else 55 + n)

def encodeChar (space_to_plus : Bool) (ch : UInt8) : Bytes :=
  if unreserved ch then [ch]
  else if ch = 32 ∧ space_to_plus = true then [43]
  else [37,hexDigit (ch.toNat / 16),hexDigit (ch.toNat % 16)]

def urlEncode (space_to_plus : Bool) (url : Bytes) : Bytes := url.flatMap (encodeChar space_to_plus)

def hexToDecimal (hex : UInt8) : Int :=
  if 48 ≤ hex ∧ hex ≤ 57 then hex.toNat - 48
  else if 65 ≤ hex ∧ hex ≤ 70 then hex.toNat - 65 + 10
  else if 97 ≤ hex ∧ hex ≤ 102 then hex.toNat - 97 + 10
  else -1

def plain (ch : UInt8) (plus_to_space : Bool) : UInt8 :=
  if ch = 43 ∧ plus_to_space = true then 32 else ch

def urlDecode (plus_to_space : Bool) : Bytes → Bytes
  | 37 :: a :: b :: rest =>
    let left := hexToDecimal a
    let right := hexToDecimal b
    if 0 ≤ left ∧ 0 ≤ right then
      UInt8.ofNat (left.toNat * 16 + right.toNat) :: urlDecode plus_to_space rest
    else 37 :: urlDecode plus_to_space (a :: b :: rest)
  | ch :: rest => plain ch plus_to_space :: urlDecode plus_to_space rest
  | [] => []

def getStatusDesc (code : Int) : Bytes := ascii ((kHttpStatusText.lookup code).getD "Unknown Code")

-- rfind('.') cuts the name; the rest from the dot on is the key.
def getMime (filename : Bytes) : Bytes :=
  let extension := (filename.reverse.takeWhile (· ≠ 46)).reverse
  if extension.length = filename.length then ascii "application/octet-stream"
  else
    match kMimeTypes.find? (fun entry => ascii entry.1 = 46 :: extension) with
    | some entry => ascii entry.2
    | none => ascii "application/octet-stream"

def validFrom : Int → List Bytes → Bool
  | _,[] => true
  | level,e :: rest =>
    if e = [] ∨ e = [46] then validFrom level rest
    else if e = [46,46] then
      if level - 1 < 0 then false else validFrom (level - 1) rest
    else validFrom (level + 1) rest

def isValidPath (path : Bytes) : Bool := validFrom 0 (split path [47])

end Util
end LinuxOS.Http
