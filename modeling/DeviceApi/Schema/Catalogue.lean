import DeviceApi.Api.Role
import DeviceApi.Document.Tree

/-!
# The catalogue of shared schemas

Schemas that every table of schemas ends up with, and into which schemas of the same shape are
folded.
-/

namespace DeviceApi

/-- The schema of the number of a device. -/
def deviceNumberSchema : Tree :=
  .ofFields
    [("type", .text "integer"),
     ("format", .text "uint32"),
     ("description", .text "Zero based device number as set on the server (0 to 4294967295)")]

/-- The schema of the type of a device. -/
def deviceTypeSchema : Tree :=
  .ofFields
    [("type", .text "string"),
     ("default", .text "telescope"),
     ("pattern", .text "^[a-z]*$"),
     ("description",
      .text "One of the recognised ASCOM device types e.g. telescope (must be lower case)")]

/-- The schema of an object of path parameters, all of them required. -/
def pathSchema (parameters : List (String × Tree)) : Tree :=
  .ofFields
    [("type", .text "object"),
     ("properties", .ofFields parameters),
     ("required", .list (parameters.map fun parameter => .text parameter.1)),
     ("x-kind", .text Role.path.text)]

/-- The schema of an object without properties. -/
def emptySchema (role : Role) : Tree :=
  .ofFields
    [("type", .text "object"), ("properties", .ofFields []), ("x-kind", .text role.text)]

/-- The schemas that are shared by default. -/
def defaultCatalogue : Tree :=
  .ofFields
    ([("DeviceNumberPath", pathSchema [("device_number", deviceNumberSchema)]),
      ("DeviceTypeAndNumberPath",
       pathSchema [("device_type", deviceTypeSchema), ("device_number", deviceNumberSchema)])]
     ++ Role.all.map fun role => ("Empty" ++ role.text, emptySchema role))

end DeviceApi
