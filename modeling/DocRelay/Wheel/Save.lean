import DocRelay.Files.Tree
import DocRelay.Wheel.Draft

namespace DocRelay.Wheel

/-!
# Saving wheels

A draft is saved in a folder, which is made if need be, under its customary name.  The file is
made before anything is written, so a draft that cannot be built leaves a file with what was
written of it.
-/

/-- Why a wheel cannot be saved. -/
inductive SaveFault where
  | wheel (fault : Fault)
  | file (fault : FileFault)
deriving DecidableEq, Repr

/-- Saves the wheel of a draft: the path of its file, or why there is none, and all files
    afterwards. -/
def Draft.save (d : Draft) (files : FileTree) (folder : String) :
    Except SaveFault String × FileTree :=
  match files.makeFolders folder with
  | .error fault => (.error (.file fault), files)
  | .ok made =>
    let path := Path.join folder d.fileName
    let (bytes, fault?) := d.outcome
    match made.write path bytes with
    | .error fault => (.error (.file fault), made)
    | .ok after =>
      match fault? with
      | some fault => (.error (.wheel fault), after)
      | none => (.ok path, after)

end DocRelay.Wheel
