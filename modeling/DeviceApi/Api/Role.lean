/-!
# Methods and roles

An operation is one method of one path. Each operation has a schema in each of three roles,
and its request parameters come in one of two encodings.
-/

namespace DeviceApi

/-- The methods of a path, in the order in which operations are enumerated. -/
inductive Method where
  | get | put | post | delete | options | head | patch | trace
  deriving DecidableEq, Repr

namespace Method

/-- All methods in order of enumeration. -/
def all : List Method := [.get, .put, .post, .delete, .options, .head, .patch, .trace]

/-- The key of a method in a path. -/
def text : Method → String
  | .get => "get"
  | .put => "put"
  | .post => "post"
  | .delete => "delete"
  | .options => "options"
  | .head => "head"
  | .patch => "patch"
  | .trace => "trace"

/-- The method with a given key. -/
def ofText? (text : String) : Option Method := all.find? fun m => m.text == text

end Method

/-- What a schema of an operation is for. -/
inductive Role where
  | path | request | response
  deriving DecidableEq, Repr

namespace Role

/-- All roles. -/
def all : List Role := [.path, .request, .response]

/-- The tag of a schema in a role; it also ends the name of the schema. -/
def text : Role → String
  | .path => "Path"
  | .request => "Request"
  | .response => "Response"

/-- The tag in lower case, for use inside of a sentence. -/
def word : Role → String
  | .path => "path"
  | .request => "request"
  | .response => "response"

/-- The role with a given tag. -/
def ofText? (text : String) : Option Role := all.find? fun r => r.text == text

end Role

/-- How the request parameters of an operation are sent. -/
inductive RequestEncoding where
  | query | form
  deriving DecidableEq, Repr

/-- The tag of an encoding. -/
def RequestEncoding.text : RequestEncoding → String
  | .query => "Query"
  | .form => "Form"

end DeviceApi
