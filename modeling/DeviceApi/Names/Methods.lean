import DeviceApi.Document.Edit
import DeviceApi.Document.Order
import DeviceApi.Text.Lines
import DeviceApi.Text.LowerCase
import DeviceApi.Text.WordChar

/-!
# Names of device methods

Paths are in small letters while methods have names with capitals. The documentation of the
device simulators mentions every method with its full name, so it is scanned for such mentions,
and a path is given the name that differs from it only in case.
-/

namespace DeviceApi

/-- What stands in front of the controller of a device. -/
def deviceMention : String := "M:ASCOM.Alpaca.Simulators."

/-- What stands in front of a method that all devices have. -/
def genericMention : String := "M:Alpaca.AlpacaController."

/-- What the name of a controller may end with. -/
def controllerSuffix : String := "Controller"

/-- The group of the paths of methods that all devices have. -/
def genericGroup : String := "\x7bdevice_type\x7d"

namespace Mention

/-- The text behind a given beginning. -/
def after? : (beginning text : List Char) → Option (List Char)
  | [], text => some text
  | _ :: _, [] => none
  | b :: beginning, c :: text => if b = c then after? beginning text else none

/-- The word at the front of a text, if there is one, and the text behind it. -/
def word? (text : List Char) : Option (List Char × List Char) :=
  let word := text.takeWhile Text.isWordChar
  if word.isEmpty then none else some (word, text.dropWhile Text.isWordChar)

/-- The method whose name and opening parenthesis a text begins with. -/
def method? (text : List Char) : Option String :=
  match word? text with
  | some (word, '(' :: _) => some (String.ofList word)
  | _ => none

/-- The name of a device, given that of its controller. -/
def deviceOf (controller : List Char) : List Char :=
  let suffix := controllerSuffix.toList
  if suffix.length < controller.length ∧ suffix.isSuffixOf controller then
    controller.take (controller.length - suffix.length)
  else controller

/-- The device and the method that a text begins to mention. -/
def device? (text : List Char) : Option (String × String) :=
  match (after? deviceMention.toList text).bind word? with
  | some (controller, '.' :: rest) =>
    (method? rest).map fun method => (String.ofList (deviceOf controller), method)
  | _ => none

/-- The method of all devices that a text begins to mention. -/
def generic? (text : List Char) : Option String :=
  (after? genericMention.toList text).bind method?

/-- The mentions of devices and their methods, in order. -/
def devices : List Char → List (String × String)
  | [] => []
  | c :: rest =>
    match device? (c :: rest) with
    | some mention => mention :: devices rest
    | none => devices rest

/-- The mentions of methods of all devices, in order. -/
def generics : List Char → List String
  | [] => []
  | c :: rest =>
    match generic? (c :: rest) with
    | some mention => mention :: generics rest
    | none => generics rest

end Mention

/-- A device with the names of its methods by their lower-case forms. -/
structure DeviceMethods where
  name : String
  methods : Entries String := []
  deriving Repr

/-- Adds a method; of two that differ only in case the last counts. -/
def DeviceMethods.add (device : DeviceMethods) (method : String) : DeviceMethods :=
  { device with methods := device.methods.put (Text.lower method) method }

/-- Devices by the lower-case forms of their names. -/
structure MethodNames where
  devices : Entries DeviceMethods := []
  deriving Repr

namespace MethodNames

/-- Adds a device; of two that differ only in case the first keeps its name. -/
def addDevice (names : MethodNames) (device : String) : MethodNames :=
  if names.devices.has (Text.lower device) then names
  else { devices := names.devices.put (Text.lower device) { name := device } }

/-- Adds a method of a device. -/
def addMethod (names : MethodNames) (device method : String) : MethodNames :=
  let names := names.addDevice device
  match names.devices.get? (Text.lower device) with
  | some known => { devices := names.devices.put (Text.lower device) (known.add method) }
  | none => names

/-- The names that a text mentions. -/
def ofText (text : String) : MethodNames :=
  let cs := text.toList
  let named := (Mention.devices cs).foldl
    (fun names mention => addMethod names mention.1 mention.2) {}
  (Mention.generics cs).foldl (fun names method => addMethod names genericGroup method)
    (addDevice named genericGroup)

/-- The device of a group of paths. -/
def device? (names : MethodNames) (group : String) : Option DeviceMethods :=
  names.devices.get? (Text.lower group)

/-- The name of a method, given its group and the last segment of its path. The segment may be
anything as long as there is no such group. -/
def resolve (names : MethodNames) (group : String) (subPath : Tree) : Except Fault String :=
  match names.device? group with
  | none => .error (Violation.unknownDevice group subPath)
  | some device =>
    match subPath with
    | .scalar (.text path) =>
      match device.methods.get? (Text.lower path) with
      | some method => .ok method
      | none => .error (Violation.unknownMethod group path)
    | _ => .error (Misfit.noSuchOperation : Misfit)

/-- The first and the last segment of a path. -/
def groupOf (path : String) : Except Violation (String × String) :=
  let segments := ((Text.splitAtChar '/' path.toList).drop 1).filter fun s => !s.isEmpty
  match segments with
  | first :: second :: rest =>
    .ok (String.ofList first, String.ofList ((second :: rest).getLast?.getD second))
  | _ => .error (.shortPath path)

/-- The name of the method of a path. -/
def resolvePath (names : MethodNames) (path : String) : Except Fault String :=
  match groupOf path with
  | .ok (group, subPath) => names.resolve group (.text subPath)
  | .error v => .error v

/-- The names of the devices, sorted. -/
def deviceNames (names : MethodNames) : List String :=
  (names.devices.values.map DeviceMethods.name).mergeSort fun a b => !decide (b < a)

end MethodNames

end DeviceApi
