/-!
The text of the support library, one unit of assembly after the other. A unit
begins at its START line and ends at its END line.
-/

namespace PascalCasl.Library

def headingUnit : List String :=
  ["; Runtime support for pcc output.",
    "; GR6 is the output cursor and GR7 the output buffer set up by the caller.",
    "; GR2 carries a value or an address, GR1 a length or the left operand.",
    "; GR0 is scratch; every other register is preserved unless it is a result."]

def multiplyUnit : List String :=
  ["MULT\tSTART", "\tPUSH\t0,GR1", "\tPUSH\t0,GR3", "\tPUSH\t0,GR4", "\tLAD\tGR3,0",
    "MLOOP\tLD\tGR2,GR2", "\tJZE\tMEND", "\tLD\tGR4,GR2", "\tAND\tGR4,=1", "\tJZE\tMSKIP",
    "\tADDL\tGR3,GR1", "MSKIP\tSLL\tGR1,1", "\tSRL\tGR2,1", "\tJUMP\tMLOOP", "MEND\tLD\tGR2,GR3",
    "\tPOP\tGR4", "\tPOP\tGR3", "\tPOP\tGR1", "\tRET", "\tEND"]

def divideUnit : List String :=
  ["; GR2 := GR1 div GR2, GR1 := GR1 mod GR2, truncating toward zero.", "DIV\tSTART",
    "\tPUSH\t0,GR3", "\tPUSH\t0,GR4", "\tPUSH\t0,GR5", "\tPUSH\t0,GR6", "\tLAD\tGR4,0",
    "\tLAD\tGR5,0", "\tLD\tGR1,GR1", "\tJPL\tDCHK", "\tJZE\tDCHK", "\tXOR\tGR1,=#FFFF",
    "\tADDA\tGR1,=1", "\tXOR\tGR4,=#FFFF", "\tLAD\tGR5,#FFFF", "DCHK\tLD\tGR2,GR2",
    "\tJPL\tDSTART", "\tJZE\tDSTART", "\tXOR\tGR2,=#FFFF", "\tADDA\tGR2,=1", "\tXOR\tGR4,=#FFFF",
    "DSTART\tLAD\tGR0,0", "\tLAD\tGR3,0", "\tLAD\tGR6,16", "DLOOP\tSLL\tGR0,1", "\tSLL\tGR1,1",
    "\tJOV\tDCARRY", "\tJUMP\tDSHIFT", "DCARRY\tOR\tGR0,=1", "DSHIFT\tSLL\tGR3,1",
    "\tCPL\tGR0,GR2", "\tJMI\tDNEXT", "\tSUBL\tGR0,GR2", "\tOR\tGR3,=1", "DNEXT\tSUBA\tGR6,=1",
    "\tJNZ\tDLOOP", "\tLD\tGR4,GR4", "\tJZE\tDQPOS", "\tXOR\tGR3,=#FFFF", "\tADDA\tGR3,=1",
    "DQPOS\tLD\tGR5,GR5", "\tJZE\tDRPOS", "\tXOR\tGR0,=#FFFF", "\tADDA\tGR0,=1",
    "DRPOS\tLD\tGR2,GR3", "\tLD\tGR1,GR0", "\tPOP\tGR6", "\tPOP\tGR5", "\tPOP\tGR4", "\tPOP\tGR3",
    "\tRET", "\tEND"]

def writeCharUnit : List String :=
  ["WRTCH\tSTART", "\tPUSH\t0,GR1", "\tLD\tGR1,GR7", "\tADDA\tGR1,GR6", "\tST\tGR2,0,GR1",
    "\tLAD\tGR6,1,GR6", "\tPOP\tGR1", "\tRET", "\tEND"]

def writeTextUnit : List String :=
  ["; GR1 characters starting at address GR2.", "WRTSTR\tSTART", "\tPUSH\t0,GR1", "\tPUSH\t0,GR2",
    "\tPUSH\t0,GR3", "\tPUSH\t0,GR4", "\tLD\tGR3,GR7", "\tADDA\tGR3,GR6", "WSLOOP\tLD\tGR1,GR1",
    "\tJZE\tWSEND", "\tLD\tGR4,0,GR2", "\tST\tGR4,0,GR3", "\tLAD\tGR2,1,GR2", "\tLAD\tGR3,1,GR3",
    "\tLAD\tGR6,1,GR6", "\tSUBA\tGR1,=1", "\tJUMP\tWSLOOP", "WSEND\tPOP\tGR4", "\tPOP\tGR3",
    "\tPOP\tGR2", "\tPOP\tGR1", "\tRET", "\tEND"]

def writeIntegerUnit : List String :=
  ["WRTINT\tSTART", "\tPUSH\t0,GR1", "\tPUSH\t0,GR2", "\tPUSH\t0,GR3", "\tPUSH\t0,GR4",
    "\tPUSH\t0,GR5", "\tLD\tGR2,GR2", "\tJPL\tWIABS", "\tJZE\tWIABS", "\tLD\tGR1,='-'",
    "\tCALL\tWIPUT", "\tXOR\tGR2,=#FFFF", "\tADDA\tGR2,=1", "WIABS\tLAD\tGR3,0", "\tLAD\tGR5,0",
    "WINEXT\tLD\tGR4,WIPOW,GR3", "\tLAD\tGR1,0", "WISUB\tCPL\tGR2,GR4", "\tJMI\tWIDIG",
    "\tSUBL\tGR2,GR4", "\tLAD\tGR1,1,GR1", "\tJUMP\tWISUB",
    "; Leading zeros are dropped, but the units digit is always written.", "WIDIG\tLD\tGR1,GR1",
    "\tJNZ\tWIOUT", "\tLD\tGR5,GR5", "\tJNZ\tWIOUT", "\tCPA\tGR3,=4", "\tJNZ\tWISKIP",
    "WIOUT\tADDA\tGR1,='0'", "\tCALL\tWIPUT", "\tLAD\tGR5,1", "WISKIP\tLAD\tGR3,1,GR3",
    "\tCPA\tGR3,=5", "\tJNZ\tWINEXT", "\tPOP\tGR5", "\tPOP\tGR4", "\tPOP\tGR3", "\tPOP\tGR2",
    "\tPOP\tGR1", "\tRET", "WIPUT\tPUSH\t0,GR2", "\tLD\tGR2,GR7", "\tADDA\tGR2,GR6",
    "\tST\tGR1,0,GR2", "\tLAD\tGR6,1,GR6", "\tPOP\tGR2", "\tRET",
    "WIPOW\tDC\t10000,1000,100,10,1", "\tEND"]

def writeLineUnit : List String :=
  ["WRTLN\tSTART", "\tPUSH\t0,GR1", "\tPUSH\t0,GR2", "\tPUSH\t0,GR3", "\tST\tGR6,OLEN",
    "\tLAD\tGR1,0", "WLLOOP\tCPA\tGR1,GR6", "\tJZE\tWLOUT", "\tLD\tGR2,GR7", "\tADDA\tGR2,GR1",
    "\tLD\tGR3,0,GR2", "\tST\tGR3,OBUF,GR1", "\tLAD\tGR1,1,GR1", "\tJUMP\tWLLOOP",
    "WLOUT\tOUT\tOBUF,OLEN", "\tLAD\tGR6,0", "\tPOP\tGR3", "\tPOP\tGR2", "\tPOP\tGR1", "\tRET",
    "OBUF\tDS\t256", "OLEN\tDS\t1", "\tEND"]

/-- The input line, its length and the place in it. -/
def inputStateUnit : List String :=
  ["; Input state: the current line, its length (-1 when no line is held)",
    "; and the read position.", "INBUF\tSTART", "\tDS\t256", "\tEND", "INLEN\tSTART", "\tDC\t-1",
    "\tEND", "INPOS\tSTART", "\tDC\t0", "\tEND"]

def currentCharUnit : List String :=
  ["; GR1 := character at the read position, or -1 at end of line.", "RDCUR\tSTART",
    "\tPUSH\t0,GR2", "\tLD\tGR1,INLEN", "\tJPL\tRCHAVE", "\tJZE\tRCHAVE", "\tIN\tINBUF,INLEN",
    "\tLAD\tGR1,0", "\tST\tGR1,INPOS", "RCHAVE\tLD\tGR2,INPOS", "\tCPA\tGR2,INLEN",
    "\tJMI\tRCGET", "\tLAD\tGR1,-1", "\tJUMP\tRCEND", "RCGET\tLD\tGR1,INBUF,GR2",
    "RCEND\tPOP\tGR2", "\tRET", "\tEND"]

def advanceUnit : List String :=
  ["RDADV\tSTART", "\tPUSH\t0,GR1", "\tLD\tGR1,INPOS", "\tLAD\tGR1,1,GR1", "\tST\tGR1,INPOS",
    "\tPOP\tGR1", "\tRET", "\tEND"]

def readIntegerUnit : List String :=
  ["; Reads a signed decimal into the word at address GR2.", "RDINT\tSTART", "\tPUSH\t0,GR1",
    "\tPUSH\t0,GR3", "\tPUSH\t0,GR4", "\tPUSH\t0,GR5", "RISKIP\tCALL\tRDCUR", "\tCPA\tGR1,=' '",
    "\tJNZ\tRISIGN", "\tCALL\tRDADV", "\tJUMP\tRISKIP", "RISIGN\tLAD\tGR5,0", "\tCPA\tGR1,='-'",
    "\tJNZ\tRIDIGS", "\tLAD\tGR5,1", "\tCALL\tRDADV", "RIDIGS\tLAD\tGR3,0", "RILOOP\tCALL\tRDCUR",
    "\tCPA\tGR1,='0'", "\tJMI\tRIDONE", "\tCPA\tGR1,='9'", "\tJPL\tRIDONE", "\tSUBA\tGR1,='0'",
    "\tLD\tGR4,GR3", "\tSLL\tGR3,3", "\tSLL\tGR4,1", "\tADDL\tGR3,GR4", "\tADDL\tGR3,GR1",
    "\tCALL\tRDADV", "\tJUMP\tRILOOP", "RIDONE\tLD\tGR5,GR5", "\tJZE\tRISTORE",
    "\tXOR\tGR3,=#FFFF", "\tADDA\tGR3,=1", "RISTORE\tST\tGR3,0,GR2", "\tPOP\tGR5", "\tPOP\tGR4",
    "\tPOP\tGR3", "\tPOP\tGR1", "\tRET", "\tEND"]

def readCharUnit : List String :=
  ["RDCH\tSTART", "\tPUSH\t0,GR1", "\tCALL\tRDCUR", "\tLD\tGR1,GR1", "\tJMI\tRHEOL",
    "\tCALL\tRDADV", "\tJUMP\tRHSTORE", "RHEOL\tLAD\tGR1,0", "RHSTORE\tST\tGR1,0,GR2",
    "\tPOP\tGR1", "\tRET", "\tEND"]

def readTextUnit : List String :=
  ["; Reads up to GR1 characters into address GR2, padding with blanks.", "RDSTR\tSTART",
    "\tPUSH\t0,GR1", "\tPUSH\t0,GR2", "\tPUSH\t0,GR3", "\tLD\tGR3,GR1", "RSLOOP\tLD\tGR3,GR3",
    "\tJZE\tRSEND", "\tCALL\tRDCUR", "\tLD\tGR1,GR1", "\tJMI\tRSPAD", "\tCALL\tRDADV",
    "\tJUMP\tRSPUT", "RSPAD\tLD\tGR1,=' '", "RSPUT\tST\tGR1,0,GR2", "\tLAD\tGR2,1,GR2",
    "\tSUBA\tGR3,=1", "\tJUMP\tRSLOOP", "RSEND\tPOP\tGR3", "\tPOP\tGR2", "\tPOP\tGR1", "\tRET",
    "\tEND"]

def readLineUnit : List String :=
  ["; Drops the rest of the current line, reading one if none is held.", "RDLN\tSTART",
    "\tPUSH\t0,GR1", "\tLD\tGR1,INLEN", "\tJPL\tRLDROP", "\tJZE\tRLDROP", "\tIN\tINBUF,INLEN",
    "RLDROP\tLAD\tGR1,-1", "\tST\tGR1,INLEN", "\tPOP\tGR1", "\tRET", "\tEND"]

def bundledLines : List String :=
  headingUnit ++ multiplyUnit ++ divideUnit ++ writeCharUnit ++ writeTextUnit ++ writeIntegerUnit ++
    writeLineUnit ++ inputStateUnit ++ currentCharUnit ++ advanceUnit ++ readIntegerUnit ++
    readCharUnit ++ readTextUnit ++ readLineUnit

def bundled : String := String.join (bundledLines.map (· ++ "\n"))

end PascalCasl.Library
