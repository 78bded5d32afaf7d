/-!
# Failures

Why an operation gave no answer, each with its text.
-/

namespace AppBackend

inductive Failure where
  | invalidArgument
  | noEndpoint
  | noTenant
  | noAppId
  | noAppKey
  | localFile
  /-- The declared length of a downloaded file is missing or is not its length. -/
  | downloadLength
  /-- The transfer ended without a status line. -/
  | noStatus
  /-- No executor is idle and none may be created. -/
  | poolExhausted
  | notLoggedIn
  | sessionExpired
  | noBucket
  | noObjectId
  | noApiName
  | noContentType
  | transferBroken
  | transferMisused
  | transferUnexpected
  /-- The method does not suit the kind of transfer. -/
  | internal
deriving DecidableEq

namespace Failure

def message : Failure → String
  | .invalidArgument => "invalid argument"
  | .noEndpoint => "endpoint URL is empty"
  | .noTenant => "tenant id is empty"
  | .noAppId => "app id is empty"
  | .noAppKey => "app key is empty"
  | .localFile => "failed to open local file"
  | .downloadLength => "downloaded file size mismatch"
  | .noStatus => "incorrect HTTP response"
  | .poolExhausted => "too many concurrent connections"
  | .notLoggedIn => "not logged in"
  | .sessionExpired => "session token expired"
  | .noBucket => "bucket name is empty"
  | .noObjectId => "object id is empty"
  | .noApiName => "API name is empty"
  | .noContentType => "content type is empty"
  | .transferBroken => "transfer runtime error"
  | .transferMisused => "transfer logic error"
  | .transferUnexpected => "unexpected transfer error"
  | .internal => "internal error"

end Failure

/-- What an engine reports when a transfer does not end well: the way there failed, the engine was
asked for something it cannot do, or something else. -/
inductive TransferError where
  | runtime (detail : String)
  | logic (detail : String)
  | unexpected (detail : String)
deriving DecidableEq

namespace TransferError

def failure : TransferError → Failure
  | .runtime _ => .transferBroken
  | .logic _ => .transferMisused
  | .unexpected _ => .transferUnexpected

def message : TransferError → String
  | .runtime detail => "runtime transfer failure: " ++ detail
  | .logic detail => "transfer misuse: " ++ detail
  | .unexpected detail => "unexpected transfer failure: " ++ detail

end TransferError
end AppBackend
