import DocRelay.Digest
import DocRelay.Files.Fault
import DocRelay.Wheel.Fault

namespace DocRelay

/-!
# Faults of installations

Why a package cannot be fetched or installed.

* `TransferFault` — why an address cannot be fetched;
* `InstallFault` — the causes; `InstallFault.message` gives the wording.
-/

/-- Why an address cannot be fetched. -/
inductive TransferFault where
  /-- The text is no address. -/
  | badAddress
  /-- The answer has a status between 400 and 499. -/
  | clientError (status : Nat) (reason url : String)
  /-- The answer has a status between 500 and 599. -/
  | serverError (status : Nat) (reason url : String)
  /-- The answer leads to another address too many times. -/
  | tooManyRedirects (url : String)
  /-- The answer has no content, is cut short, or is not what was expected. -/
  | undecodable
  /-- The request cannot be sent. -/
  | unreachable (url : String)
deriving DecidableEq, Repr

/-- The wording of the fault. -/
def TransferFault.message : TransferFault → String
  | .badAddress => "builder error"
  | .clientError status reason url =>
    "HTTP status client error (" ++ toString status ++ " " ++ reason ++ ") for url (" ++ url
      ++ ")"
  | .serverError status reason url =>
    "HTTP status server error (" ++ toString status ++ " " ++ reason ++ ") for url (" ++ url
      ++ ")"
  | .tooManyRedirects url => "error following redirect for url (" ++ url ++ ")"
  | .undecodable => "error decoding response body"
  | .unreachable url => "error sending request for url (" ++ url ++ ")"

/-- Why a package cannot be fetched or installed. -/
inductive InstallFault where
  /-- The expected digest is no digest. -/
  | badDigest (fault : Digest.Fault)
  /-- The wheel does not have the expected digest. -/
  | wrongDigest (expected actual : String)
  /-- What was fetched is no wheel. -/
  | badWheel (fault : Wheel.Fault)
  /-- Another version of the package is installed. -/
  | conflict (name version : String)
  /-- The same version of the package is installed with another content. -/
  | changed (name version : String)
  /-- The source does not have the package. -/
  | unavailable
  /-- The address names no file. -/
  | noFileName
  /-- No wheel of the folder meets the requirement. -/
  | noMatch (folder : String)
  /-- The folder cannot be listed. -/
  | unlisted (fault : FileFault)
  /-- The file cannot be read. -/
  | unreadable (path : String) (fault : FileFault)
  /-- The address cannot be fetched. -/
  | transfer (fault : TransferFault)
  /-- The index has no wheel that runs everywhere. -/
  | nothingPublished (name : String)
  /-- A path is no address. -/
  | pathOverNetwork
deriving DecidableEq, Repr

/-- The wording of the fault. -/
def InstallFault.message : InstallFault → String
  | .badDigest fault => "invalid digest: " ++ fault.message
  | .wrongDigest expected actual => "digest mismatch: expected " ++ expected ++ ", got " ++ actual
  | .badWheel fault => fault.message
  | .conflict name version => "conflicts with installed " ++ name ++ " " ++ version
  | .changed name version =>
    name ++ " " ++ version ++ " is already installed with different content"
  | .unavailable => "not available"
  | .noFileName => "URL has no file name"
  | .noMatch folder => "no matching wheel in " ++ folder
  | .unlisted fault => fault.message
  | .unreadable path fault => path ++ ": " ++ fault.message
  | .transfer fault => "HTTP error: " ++ fault.message
  | .nothingPublished name => "HTTP error: no pure-Python wheel published for " ++ name
  | .pathOverNetwork => "HTTP error: path locators cannot be fetched over HTTP"

end DocRelay
