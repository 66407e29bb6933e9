/-
# The configuration

`struct DBPConfig`: the values of `dbp_config.ini` that the modelled
functions read, and the splitting of its lists; and the error codes of
`dbp.h`.

Key definitions: `DBPConfig`, `LoopConfig`, `dbpConfigExpandToken`.
-/
import Dbp.C.String

namespace Dbp

open CLib

/-- The part of `struct DBPConfig` the daemon reads. -/
structure DBPConfig where
  fileExtension : List CStr
  searchDir : List CStr
  dataDirectory : CStr
  iconDirectory : CStr
  execDirectory : CStr
  desktopDirectory : CStr
  execTemplate : CStr
deriving Repr, DecidableEq

/-- The part the loop layer and the launcher read, too: where packages are mounted, and where their
writable data is. -/
structure LoopConfig extends DBPConfig where
  imgMount : CStr
  unionMount : CStr
  rodataDirectory : CStr
  perUserAppdata : Bool
  perPackageAppdata : Bool
deriving Repr, DecidableEq

/-- `dbp_config_expand_token`: the non-empty pieces of a `;`-separated list. -/
def dbpConfigExpandToken (token : CStr) : List CStr := strtok ';' token

example : dbpConfigExpandToken (lit ".dbp;;.pyra;") = [lit ".dbp", lit ".pyra"] := by decide

/-- Error codes of `dbp.h`. -/
def DBP_ERROR_NO_REPLY : ℤ := -1000
def DBP_ERROR_INTERNAL_MSG : ℤ := -1001
def DBP_ERROR_NO_LOOP : ℤ := -1002
def DBP_ERROR_SET_LOOP : ℤ := -1003
def DBP_ERROR_SET_LOOP2 : ℤ := -1004
def DBP_ERROR_NO_PKG_ACCESS : ℤ := -1005
def DBP_ERROR_NO_MEMORY : ℤ := -1006
def DBP_ERROR_BAD_PKG_ID : ℤ := -1007
def DBP_ERROR_BAD_FSIMG : ℤ := -1008
def DBP_ERROR_ILL_DIRNAME : ℤ := -1009
def DBP_ERROR_UNION_FAILED : ℤ := -1010
def DBP_ERROR_APPD_NOPERM : ℤ := -1011
def DBP_ERROR_NO_DEFAULTD : ℤ := -1012
def DBP_ERROR_PKG_REG : ℤ := -1013
def DBP_ERROR_UNHANDLED : ℤ := -1014
def DBP_ERROR_BAD_META : ℤ := -1015
def DBP_ERROR_NO_DEFAULTH : ℤ := -1016
def DBP_ERROR_SIGEXIT : ℤ := -1017
def DBP_ERROR_SIGSEGV : ℤ := -1018
def DBP_ERROR_MYSTKILL : ℤ := -1019
def DBP_ERROR_NOTFOUND : ℤ := -1020
def DBP_ERROR_NOTVALID : ℤ := -1021
def DBP_ERROR_BADEXT : ℤ := -1022
def DBP_ERROR_MUTILATED : ℤ := -1023

end Dbp
