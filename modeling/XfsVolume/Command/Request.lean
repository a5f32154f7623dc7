/-!
# Requests to the inspector

The inspector is asked for one thing about one image. Flags may stand anywhere after the word that
names the request, and the first two arguments that are no flags are the image and a path in it.
-/

namespace XfsVolume

/-- What can be asked of an image. -/
inductive Inquiry
  | inspect
  | list
  | contents
  | stat
  | extents
  | linkTarget
  deriving DecidableEq

namespace Inquiry

/-- The word that names an inquiry. -/
def word : Inquiry → String
  | inspect => "inspect"
  | list => "ls"
  | contents => "cat"
  | stat => "stat"
  | extents => "bmap"
  | linkTarget => "readlink"

/-- All inquiries. -/
def all : List Inquiry := [inspect, list, contents, stat, extents, linkTarget]

/-- The inquiry that a word names. -/
def ofWord? (s : String) : Option Inquiry := all.find? fun i => i.word == s

/-- True when the inquiry is about a path that must be given. -/
def needsPath : Inquiry → Bool
  | inspect | list => false
  | contents | stat | extents | linkTarget => true

end Inquiry

/-- Arguments after the first, sorted. -/
structure Arguments where
  image : String
  path : Option String
  json : Bool
  skipValidation : Bool
  deriving DecidableEq

/-- Reason for which arguments are not accepted. -/
inductive ArgumentFlaw
  | unknownFlag (flag : String)
  | missingImage (command : String)
  | extra (argument : String)
  | unknownCommand (command : String)
  | missingPath (command : String)
  deriving DecidableEq

/-- Text of the reason. -/
def ArgumentFlaw.message : ArgumentFlaw → String
  | unknownFlag flag => s!"unknown flag: {flag}"
  | missingImage command => s!"{command} requires an image path"
  | extra argument => s!"unexpected argument: {argument}"
  | unknownCommand command => s!"unknown command: {command}"
  | missingPath command => s!"{command} requires a path inside the image"

namespace Arguments

/-- The flag that asks for a document instead of lines. -/
def jsonFlag : String := "--json"

/-- The flag that asks to take the superblock as it stands. -/
def skipFlag : String := "--skip-validation"

/-- True for an argument that is a flag. -/
def isFlag (arg : String) : Bool := arg.startsWith "--"

/-- Sorts the arguments of `command`. -/
def ofList (command : String) (args : List String) : Except ArgumentFlaw Arguments := do
  let (flags, words) := args.partition isFlag
  if let some flag := flags.find? fun f => f != jsonFlag && f != skipFlag then
    throw (.unknownFlag flag)
  let json := flags.contains jsonFlag
  let skipValidation := flags.contains skipFlag
  match words with
  | [] => throw (.missingImage command)
  | [image] => return { image, path := none, json, skipValidation }
  | [image, path] => return { image, path := some path, json, skipValidation }
  | _ :: _ :: other :: _ => throw (.extra other)

end Arguments

end XfsVolume
