/-!
# Header names

The names and fixed values that the service and its clients agree on.
-/

namespace AppBackend.HeaderName

def appId : String := "X-Application-Id"

def appKey : String := "X-Application-Key"

def sessionToken : String := "X-Session-Token"

def userAgent : String := "User-Agent"

def contentType : String := "Content-Type"

def contentLength : String := "Content-Length"

/-- The length of a stored file, given by the server beside the body. -/
def fileLength : String := "X-Content-Length"

def acl : String := "X-ACL"

end AppBackend.HeaderName

namespace AppBackend

def jsonMediaType : String := "application/json"

/-- What a client calls itself unless the caller says otherwise. -/
def defaultUserAgent : String := "baas embedded sdk"

end AppBackend
