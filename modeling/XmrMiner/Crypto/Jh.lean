import Mathlib.Data.Finite.Prod
import XmrMiner.Lib.Blocks

/-!
# JH

`jh_hash` is written in bitslice form: the 256 elements of four bits are spread over eight
rows of 128 bits, and an S-box is a formula that works on 64 elements at once.  Every
round adds, turns and swaps whole words; the seventh one swaps the two words of a row.

`Update` is for data whose number of bits need not be a multiple of eight; the bits of the
last byte behind them have to be zero.  When the data do not fill up a buffer that is not
empty, it reads as much as there is room for, and one byte more if there are bits of a last
byte: this one goes behind the buffer, which ends the structure.

The functions of the device are the same ones, for 256 bits.

## Main definitions

* `jhE8`, `jhF8` — the permutation, and the compression function.
* `JhState`, `jhUpdate`, `jhFinal`, `jhHash` — the functions.
* `jhPad`, `jhDigest` — what is put behind a message, and the fold over the blocks.

## Main results

* `jhSbox_bit` — **each bit goes through one of the two S-boxes.**
* `jhE8_bijective` — **the permutation is one.**
* `JhState.Absorbed.update` — **a call of `Update` appends its data**, if it stays inside
  the buffer.
* `jhHash_eq` — **the functions compute the fold**, for a message of any number of bits.
* `jhFinal_calls` — **so do any calls**, unless one of them leaves the buffer.
-/

namespace XmrMiner

open ByteMem Blocks

/-! ### Tables -/

/-- `JH224_H0`. -/
def jh224H0 : List (BitVec 8) := [
  0x2d, 0xfe, 0xdd, 0x62, 0xf9, 0x9a, 0x98, 0xac, 0xae, 0x7c, 0xac, 0xd6, 0x19, 0xd6, 0x34, 0xe7,
  0xa4, 0x83, 0x10, 0x05, 0xbc, 0x30, 0x12, 0x16, 0xb8, 0x60, 0x38, 0xc6, 0xc9, 0x66, 0x14, 0x94,
  0x66, 0xd9, 0x89, 0x9f, 0x25, 0x80, 0x70, 0x6f, 0xce, 0x9e, 0xa3, 0x1b, 0x1d, 0x9b, 0x1a, 0xdc,
  0x11, 0xe8, 0x32, 0x5f, 0x7b, 0x36, 0x6e, 0x10, 0xf9, 0x94, 0x85, 0x7f, 0x02, 0xfa, 0x06, 0xc1,
  0x1b, 0x4f, 0x1b, 0x5c, 0xd8, 0xc8, 0x40, 0xb3, 0x97, 0xf6, 0xa1, 0x7f, 0x6e, 0x73, 0x80, 0x99,
  0xdc, 0xdf, 0x93, 0xa5, 0xad, 0xea, 0xa3, 0xd3, 0xa4, 0x31, 0xe8, 0xde, 0xc9, 0x53, 0x9a, 0x68,
  0x22, 0xb4, 0xa9, 0x8a, 0xec, 0x86, 0xa1, 0xe4, 0xd5, 0x74, 0xac, 0x95, 0x9c, 0xe5, 0x6c, 0xf0,
  0x15, 0x96, 0x0d, 0xea, 0xb5, 0xab, 0x2b, 0xbf, 0x96, 0x11, 0xdc, 0xf0, 0xdd, 0x64, 0xea, 0x6e]

/-- `JH256_H0`. -/
def jh256H0 : List (BitVec 8) := [
  0xeb, 0x98, 0xa3, 0x41, 0x2c, 0x20, 0xd3, 0xeb, 0x92, 0xcd, 0xbe, 0x7b, 0x9c, 0xb2, 0x45, 0xc1,
  0x1c, 0x93, 0x51, 0x91, 0x60, 0xd4, 0xc7, 0xfa, 0x26, 0x00, 0x82, 0xd6, 0x7e, 0x50, 0x8a, 0x03,
  0xa4, 0x23, 0x9e, 0x26, 0x77, 0x26, 0xb9, 0x45, 0xe0, 0xfb, 0x1a, 0x48, 0xd4, 0x1a, 0x94, 0x77,
  0xcd, 0xb5, 0xab, 0x26, 0x02, 0x6b, 0x17, 0x7a, 0x56, 0xf0, 0x24, 0x42, 0x0f, 0xff, 0x2f, 0xa8,
  0x71, 0xa3, 0x96, 0x89, 0x7f, 0x2e, 0x4d, 0x75, 0x1d, 0x14, 0x49, 0x08, 0xf7, 0x7d, 0xe2, 0x62,
  0x27, 0x76, 0x95, 0xf7, 0x76, 0x24, 0x8f, 0x94, 0x87, 0xd5, 0xb6, 0x57, 0x47, 0x80, 0x29, 0x6c,
  0x5c, 0x5e, 0x27, 0x2d, 0xac, 0x8e, 0x0d, 0x6c, 0x51, 0x84, 0x50, 0xc6, 0x57, 0x05, 0x7a, 0x0f,
  0x7b, 0xe4, 0xd3, 0x67, 0x70, 0x24, 0x12, 0xea, 0x89, 0xe3, 0xab, 0x13, 0xd3, 0x1c, 0xd7, 0x69]

/-- `JH384_H0`. -/
def jh384H0 : List (BitVec 8) := [
  0x48, 0x1e, 0x3b, 0xc6, 0xd8, 0x13, 0x39, 0x8a, 0x6d, 0x3b, 0x5e, 0x89, 0x4a, 0xde, 0x87, 0x9b,
  0x63, 0xfa, 0xea, 0x68, 0xd4, 0x80, 0xad, 0x2e, 0x33, 0x2c, 0xcb, 0x21, 0x48, 0x0f, 0x82, 0x67,
  0x98, 0xae, 0xc8, 0x4d, 0x90, 0x82, 0xb9, 0x28, 0xd4, 0x55, 0xea, 0x30, 0x41, 0x11, 0x42, 0x49,
  0x36, 0xf5, 0x55, 0xb2, 0x92, 0x48, 0x47, 0xec, 0xc7, 0x25, 0x0a, 0x93, 0xba, 0xf4, 0x3c, 0xe1,
  0x56, 0x9b, 0x7f, 0x8a, 0x27, 0xdb, 0x45, 0x4c, 0x9e, 0xfc, 0xbd, 0x49, 0x63, 0x97, 0xaf, 0x0e,
  0x58, 0x9f, 0xc2, 0x7d, 0x26, 0xaa, 0x80, 0xcd, 0x80, 0xc0, 0x8b, 0x8c, 0x9d, 0xeb, 0x2e, 0xda,
  0x8a, 0x79, 0x81, 0xe8, 0xf8, 0xd5, 0x37, 0x3a, 0xf4, 0x39, 0x67, 0xad, 0xdd, 0xd1, 0x7a, 0x71,
  0xa9, 0xb4, 0xd3, 0xbd, 0xa4, 0x75, 0xd3, 0x94, 0x97, 0x6c, 0x3f, 0xba, 0x98, 0x42, 0x73, 0x7f]

/-- `JH512_H0`. -/
def jh512H0 : List (BitVec 8) := [
  0x6f, 0xd1, 0x4b, 0x96, 0x3e, 0x00, 0xaa, 0x17, 0x63, 0x6a, 0x2e, 0x05, 0x7a, 0x15, 0xd5, 0x43,
  0x8a, 0x22, 0x5e, 0x8d, 0x0c, 0x97, 0xef, 0x0b, 0xe9, 0x34, 0x12, 0x59, 0xf2, 0xb3, 0xc3, 0x61,
  0x89, 0x1d, 0xa0, 0xc1, 0x53, 0x6f, 0x80, 0x1e, 0x2a, 0xa9, 0x05, 0x6b, 0xea, 0x2b, 0x6d, 0x80,
  0x58, 0x8e, 0xcc, 0xdb, 0x20, 0x75, 0xba, 0xa6, 0xa9, 0x0f, 0x3a, 0x76, 0xba, 0xf8, 0x3b, 0xf7,
  0x01, 0x69, 0xe6, 0x05, 0x41, 0xe3, 0x4a, 0x69, 0x46, 0xb5, 0x8a, 0x8e, 0x2e, 0x6f, 0xe6, 0x5a,
  0x10, 0x47, 0xa7, 0xd0, 0xc1, 0x84, 0x3c, 0x24, 0x3b, 0x6e, 0x71, 0xb1, 0x2d, 0x5a, 0xc1, 0x99,
  0xcf, 0x57, 0xf6, 0xec, 0x9d, 0xb1, 0xf8, 0x56, 0xa7, 0x06, 0x88, 0x7c, 0x57, 0x16, 0xb1, 0x56,
  0xe3, 0xc2, 0xfc, 0xdf, 0xe6, 0x85, 0x17, 0xfb, 0x54, 0x5a, 0x46, 0x78, 0xcc, 0x8c, 0xdd, 0x4b]

/-- `E8_bitslice_roundconstant`. -/
def e8BitsliceRoundconstant : List (List (BitVec 8)) := [
  [0x72, 0xd5, 0xde, 0xa2, 0xdf, 0x15, 0xf8, 0x67, 0x7b, 0x84, 0x15, 0x0a, 0xb7, 0x23, 0x15, 0x57,
   0x81, 0xab, 0xd6, 0x90, 0x4d, 0x5a, 0x87, 0xf6, 0x4e, 0x9f, 0x4f, 0xc5, 0xc3, 0xd1, 0x2b, 0x40],
  [0xea, 0x98, 0x3a, 0xe0, 0x5c, 0x45, 0xfa, 0x9c, 0x03, 0xc5, 0xd2, 0x99, 0x66, 0xb2, 0x99, 0x9a,
   0x66, 0x02, 0x96, 0xb4, 0xf2, 0xbb, 0x53, 0x8a, 0xb5, 0x56, 0x14, 0x1a, 0x88, 0xdb, 0xa2, 0x31],
  [0x03, 0xa3, 0x5a, 0x5c, 0x9a, 0x19, 0x0e, 0xdb, 0x40, 0x3f, 0xb2, 0x0a, 0x87, 0xc1, 0x44, 0x10,
   0x1c, 0x05, 0x19, 0x80, 0x84, 0x9e, 0x95, 0x1d, 0x6f, 0x33, 0xeb, 0xad, 0x5e, 0xe7, 0xcd, 0xdc],
  [0x10, 0xba, 0x13, 0x92, 0x02, 0xbf, 0x6b, 0x41, 0xdc, 0x78, 0x65, 0x15, 0xf7, 0xbb, 0x27, 0xd0,
   0x0a, 0x2c, 0x81, 0x39, 0x37, 0xaa, 0x78, 0x50, 0x3f, 0x1a, 0xbf, 0xd2, 0x41, 0x00, 0x91, 0xd3],
  [0x42, 0x2d, 0x5a, 0x0d, 0xf6, 0xcc, 0x7e, 0x90, 0xdd, 0x62, 0x9f, 0x9c, 0x92, 0xc0, 0x97, 0xce,
   0x18, 0x5c, 0xa7, 0x0b, 0xc7, 0x2b, 0x44, 0xac, 0xd1, 0xdf, 0x65, 0xd6, 0x63, 0xc6, 0xfc, 0x23],
  [0x97, 0x6e, 0x6c, 0x03, 0x9e, 0xe0, 0xb8, 0x1a, 0x21, 0x05, 0x45, 0x7e, 0x44, 0x6c, 0xec, 0xa8,
   0xee, 0xf1, 0x03, 0xbb, 0x5d, 0x8e, 0x61, 0xfa, 0xfd, 0x96, 0x97, 0xb2, 0x94, 0x83, 0x81, 0x97],
  [0x4a, 0x8e, 0x85, 0x37, 0xdb, 0x03, 0x30, 0x2f, 0x2a, 0x67, 0x8d, 0x2d, 0xfb, 0x9f, 0x6a, 0x95,
   0x8a, 0xfe, 0x73, 0x81, 0xf8, 0xb8, 0x69, 0x6c, 0x8a, 0xc7, 0x72, 0x46, 0xc0, 0x7f, 0x42, 0x14],
  [0xc5, 0xf4, 0x15, 0x8f, 0xbd, 0xc7, 0x5e, 0xc4, 0x75, 0x44, 0x6f, 0xa7, 0x8f, 0x11, 0xbb, 0x80,
   0x52, 0xde, 0x75, 0xb7, 0xae, 0xe4, 0x88, 0xbc, 0x82, 0xb8, 0x00, 0x1e, 0x98, 0xa6, 0xa3, 0xf4],
  [0x8e, 0xf4, 0x8f, 0x33, 0xa9, 0xa3, 0x63, 0x15, 0xaa, 0x5f, 0x56, 0x24, 0xd5, 0xb7, 0xf9, 0x89,
   0xb6, 0xf1, 0xed, 0x20, 0x7c, 0x5a, 0xe0, 0xfd, 0x36, 0xca, 0xe9, 0x5a, 0x06, 0x42, 0x2c, 0x36],
  [0xce, 0x29, 0x35, 0x43, 0x4e, 0xfe, 0x98, 0x3d, 0x53, 0x3a, 0xf9, 0x74, 0x73, 0x9a, 0x4b, 0xa7,
   0xd0, 0xf5, 0x1f, 0x59, 0x6f, 0x4e, 0x81, 0x86, 0x0e, 0x9d, 0xad, 0x81, 0xaf, 0xd8, 0x5a, 0x9f],
  [0xa7, 0x05, 0x06, 0x67, 0xee, 0x34, 0x62, 0x6a, 0x8b, 0x0b, 0x28, 0xbe, 0x6e, 0xb9, 0x17, 0x27,
   0x47, 0x74, 0x07, 0x26, 0xc6, 0x80, 0x10, 0x3f, 0xe0, 0xa0, 0x7e, 0x6f, 0xc6, 0x7e, 0x48, 0x7b],
  [0x0d, 0x55, 0x0a, 0xa5, 0x4a, 0xf8, 0xa4, 0xc0, 0x91, 0xe3, 0xe7, 0x9f, 0x97, 0x8e, 0xf1, 0x9e,
   0x86, 0x76, 0x72, 0x81, 0x50, 0x60, 0x8d, 0xd4, 0x7e, 0x9e, 0x5a, 0x41, 0xf3, 0xe5, 0xb0, 0x62],
  [0xfc, 0x9f, 0x1f, 0xec, 0x40, 0x54, 0x20, 0x7a, 0xe3, 0xe4, 0x1a, 0x00, 0xce, 0xf4, 0xc9, 0x84,
   0x4f, 0xd7, 0x94, 0xf5, 0x9d, 0xfa, 0x95, 0xd8, 0x55, 0x2e, 0x7e, 0x11, 0x24, 0xc3, 0x54, 0xa5],
  [0x5b, 0xdf, 0x72, 0x28, 0xbd, 0xfe, 0x6e, 0x28, 0x78, 0xf5, 0x7f, 0xe2, 0x0f, 0xa5, 0xc4, 0xb2,
   0x05, 0x89, 0x7c, 0xef, 0xee, 0x49, 0xd3, 0x2e, 0x44, 0x7e, 0x93, 0x85, 0xeb, 0x28, 0x59, 0x7f],
  [0x70, 0x5f, 0x69, 0x37, 0xb3, 0x24, 0x31, 0x4a, 0x5e, 0x86, 0x28, 0xf1, 0x1d, 0xd6, 0xe4, 0x65,
   0xc7, 0x1b, 0x77, 0x04, 0x51, 0xb9, 0x20, 0xe7, 0x74, 0xfe, 0x43, 0xe8, 0x23, 0xd4, 0x87, 0x8a],
  [0x7d, 0x29, 0xe8, 0xa3, 0x92, 0x76, 0x94, 0xf2, 0xdd, 0xcb, 0x7a, 0x09, 0x9b, 0x30, 0xd9, 0xc1,
   0x1d, 0x1b, 0x30, 0xfb, 0x5b, 0xdc, 0x1b, 0xe0, 0xda, 0x24, 0x49, 0x4f, 0xf2, 0x9c, 0x82, 0xbf],
  [0xa4, 0xe7, 0xba, 0x31, 0xb4, 0x70, 0xbf, 0xff, 0x0d, 0x32, 0x44, 0x05, 0xde, 0xf8, 0xbc, 0x48,
   0x3b, 0xae, 0xfc, 0x32, 0x53, 0xbb, 0xd3, 0x39, 0x45, 0x9f, 0xc3, 0xc1, 0xe0, 0x29, 0x8b, 0xa0],
  [0xe5, 0xc9, 0x05, 0xfd, 0xf7, 0xae, 0x09, 0x0f, 0x94, 0x70, 0x34, 0x12, 0x42, 0x90, 0xf1, 0x34,
   0xa2, 0x71, 0xb7, 0x01, 0xe3, 0x44, 0xed, 0x95, 0xe9, 0x3b, 0x8e, 0x36, 0x4f, 0x2f, 0x98, 0x4a],
  [0x88, 0x40, 0x1d, 0x63, 0xa0, 0x6c, 0xf6, 0x15, 0x47, 0xc1, 0x44, 0x4b, 0x87, 0x52, 0xaf, 0xff,
   0x7e, 0xbb, 0x4a, 0xf1, 0xe2, 0x0a, 0xc6, 0x30, 0x46, 0x70, 0xb6, 0xc5, 0xcc, 0x6e, 0x8c, 0xe6],
  [0xa4, 0xd5, 0xa4, 0x56, 0xbd, 0x4f, 0xca, 0x00, 0xda, 0x9d, 0x84, 0x4b, 0xc8, 0x3e, 0x18, 0xae,
   0x73, 0x57, 0xce, 0x45, 0x30, 0x64, 0xd1, 0xad, 0xe8, 0xa6, 0xce, 0x68, 0x14, 0x5c, 0x25, 0x67],
  [0xa3, 0xda, 0x8c, 0xf2, 0xcb, 0x0e, 0xe1, 0x16, 0x33, 0xe9, 0x06, 0x58, 0x9a, 0x94, 0x99, 0x9a,
   0x1f, 0x60, 0xb2, 0x20, 0xc2, 0x6f, 0x84, 0x7b, 0xd1, 0xce, 0xac, 0x7f, 0xa0, 0xd1, 0x85, 0x18],
  [0x32, 0x59, 0x5b, 0xa1, 0x8d, 0xdd, 0x19, 0xd3, 0x50, 0x9a, 0x1c, 0xc0, 0xaa, 0xa5, 0xb4, 0x46,
   0x9f, 0x3d, 0x63, 0x67, 0xe4, 0x04, 0x6b, 0xba, 0xf6, 0xca, 0x19, 0xab, 0x0b, 0x56, 0xee, 0x7e],
  [0x1f, 0xb1, 0x79, 0xea, 0xa9, 0x28, 0x21, 0x74, 0xe9, 0xbd, 0xf7, 0x35, 0x3b, 0x36, 0x51, 0xee,
   0x1d, 0x57, 0xac, 0x5a, 0x75, 0x50, 0xd3, 0x76, 0x3a, 0x46, 0xc2, 0xfe, 0xa3, 0x7d, 0x70, 0x01],
  [0xf7, 0x35, 0xc1, 0xaf, 0x98, 0xa4, 0xd8, 0x42, 0x78, 0xed, 0xec, 0x20, 0x9e, 0x6b, 0x67, 0x79,
   0x41, 0x83, 0x63, 0x15, 0xea, 0x3a, 0xdb, 0xa8, 0xfa, 0xc3, 0x3b, 0x4d, 0x32, 0x83, 0x2c, 0x83],
  [0xa7, 0x40, 0x3b, 0x1f, 0x1c, 0x27, 0x47, 0xf3, 0x59, 0x40, 0xf0, 0x34, 0xb7, 0x2d, 0x76, 0x9a,
   0xe7, 0x3e, 0x4e, 0x6c, 0xd2, 0x21, 0x4f, 0xfd, 0xb8, 0xfd, 0x8d, 0x39, 0xdc, 0x57, 0x59, 0xef],
  [0x8d, 0x9b, 0x0c, 0x49, 0x2b, 0x49, 0xeb, 0xda, 0x5b, 0xa2, 0xd7, 0x49, 0x68, 0xf3, 0x70, 0x0d,
   0x7d, 0x3b, 0xae, 0xd0, 0x7a, 0x8d, 0x55, 0x84, 0xf5, 0xa5, 0xe9, 0xf0, 0xe4, 0xf8, 0x8e, 0x65],
  [0xa0, 0xb8, 0xa2, 0xf4, 0x36, 0x10, 0x3b, 0x53, 0x0c, 0xa8, 0x07, 0x9e, 0x75, 0x3e, 0xec, 0x5a,
   0x91, 0x68, 0x94, 0x92, 0x56, 0xe8, 0x88, 0x4f, 0x5b, 0xb0, 0x5c, 0x55, 0xf8, 0xba, 0xbc, 0x4c],
  [0xe3, 0xbb, 0x3b, 0x99, 0xf3, 0x87, 0x94, 0x7b, 0x75, 0xda, 0xf4, 0xd6, 0x72, 0x6b, 0x1c, 0x5d,
   0x64, 0xae, 0xac, 0x28, 0xdc, 0x34, 0xb3, 0x6d, 0x6c, 0x34, 0xa5, 0x50, 0xb8, 0x28, 0xdb, 0x71],
  [0xf8, 0x61, 0xe2, 0xf2, 0x10, 0x8d, 0x51, 0x2a, 0xe3, 0xdb, 0x64, 0x33, 0x59, 0xdd, 0x75, 0xfc,
   0x1c, 0xac, 0xbc, 0xf1, 0x43, 0xce, 0x3f, 0xa2, 0x67, 0xbb, 0xd1, 0x3c, 0x02, 0xe8, 0x43, 0xb0],
  [0x33, 0x0a, 0x5b, 0xca, 0x88, 0x29, 0xa1, 0x75, 0x7f, 0x34, 0x19, 0x4d, 0xb4, 0x16, 0x53, 0x5c,
   0x92, 0x3b, 0x94, 0xc3, 0x0e, 0x79, 0x4d, 0x1e, 0x79, 0x74, 0x75, 0xd7, 0xb6, 0xee, 0xaf, 0x3f],
  [0xea, 0xa8, 0xd4, 0xf7, 0xbe, 0x1a, 0x39, 0x21, 0x5c, 0xf4, 0x7e, 0x09, 0x4c, 0x23, 0x27, 0x51,
   0x26, 0xa3, 0x24, 0x53, 0xba, 0x32, 0x3c, 0xd2, 0x44, 0xa3, 0x17, 0x4a, 0x6d, 0xa6, 0xd5, 0xad],
  [0xb5, 0x1d, 0x3e, 0xa6, 0xaf, 0xf2, 0xc9, 0x08, 0x83, 0x59, 0x3d, 0x98, 0x91, 0x6b, 0x3c, 0x56,
   0x4c, 0xf8, 0x7c, 0xa1, 0x72, 0x86, 0x60, 0x4d, 0x46, 0xe2, 0x3e, 0xcc, 0x08, 0x6e, 0xc7, 0xf6],
  [0x2f, 0x98, 0x33, 0xb3, 0xb1, 0xbc, 0x76, 0x5e, 0x2b, 0xd6, 0x66, 0xa5, 0xef, 0xc4, 0xe6, 0x2a,
   0x06, 0xf4, 0xb6, 0xe8, 0xbe, 0xc1, 0xd4, 0x36, 0x74, 0xee, 0x82, 0x15, 0xbc, 0xef, 0x21, 0x63],
  [0xfd, 0xc1, 0x4e, 0x0d, 0xf4, 0x53, 0xc9, 0x69, 0xa7, 0x7d, 0x5a, 0xc4, 0x06, 0x58, 0x58, 0x26,
   0x7e, 0xc1, 0x14, 0x16, 0x06, 0xe0, 0xfa, 0x16, 0x7e, 0x90, 0xaf, 0x3d, 0x28, 0x63, 0x9d, 0x3f],
  [0xd2, 0xc9, 0xf2, 0xe3, 0x00, 0x9b, 0xd2, 0x0c, 0x5f, 0xaa, 0xce, 0x30, 0xb7, 0xd4, 0x0c, 0x30,
   0x74, 0x2a, 0x51, 0x16, 0xf2, 0xe0, 0x32, 0x98, 0x0d, 0xeb, 0x30, 0xd8, 0xe3, 0xce, 0xf8, 0x9a],
  [0x4b, 0xc5, 0x9e, 0x7b, 0xb5, 0xf1, 0x79, 0x92, 0xff, 0x51, 0xe6, 0x6e, 0x04, 0x86, 0x68, 0xd3,
   0x9b, 0x23, 0x4d, 0x57, 0xe6, 0x96, 0x67, 0x31, 0xcc, 0xe6, 0xa6, 0xf3, 0x17, 0x0a, 0x75, 0x05],
  [0xb1, 0x76, 0x81, 0xd9, 0x13, 0x32, 0x6c, 0xce, 0x3c, 0x17, 0x52, 0x84, 0xf8, 0x05, 0xa2, 0x62,
   0xf4, 0x2b, 0xcb, 0xb3, 0x78, 0x47, 0x15, 0x47, 0xff, 0x46, 0x54, 0x82, 0x23, 0x93, 0x6a, 0x48],
  [0x38, 0xdf, 0x58, 0x07, 0x4e, 0x5e, 0x65, 0x65, 0xf2, 0xfc, 0x7c, 0x89, 0xfc, 0x86, 0x50, 0x8e,
   0x31, 0x70, 0x2e, 0x44, 0xd0, 0x0b, 0xca, 0x86, 0xf0, 0x40, 0x09, 0xa2, 0x30, 0x78, 0x47, 0x4e],
  [0x65, 0xa0, 0xee, 0x39, 0xd1, 0xf7, 0x38, 0x83, 0xf7, 0x5e, 0xe9, 0x37, 0xe4, 0x2c, 0x3a, 0xbd,
   0x21, 0x97, 0xb2, 0x26, 0x01, 0x13, 0xf8, 0x6f, 0xa3, 0x44, 0xed, 0xd1, 0xef, 0x9f, 0xde, 0xe7],
  [0x8b, 0xa0, 0xdf, 0x15, 0x76, 0x25, 0x92, 0xd9, 0x3c, 0x85, 0xf7, 0xf6, 0x12, 0xdc, 0x42, 0xbe,
   0xd8, 0xa7, 0xec, 0x7c, 0xab, 0x27, 0xb0, 0x7e, 0x53, 0x8d, 0x7d, 0xda, 0xaa, 0x3e, 0xa8, 0xde],
  [0xaa, 0x25, 0xce, 0x93, 0xbd, 0x02, 0x69, 0xd8, 0x5a, 0xf6, 0x43, 0xfd, 0x1a, 0x73, 0x08, 0xf9,
   0xc0, 0x5f, 0xef, 0xda, 0x17, 0x4a, 0x19, 0xa5, 0x97, 0x4d, 0x66, 0x33, 0x4c, 0xfd, 0x21, 0x6a],
  [0x35, 0xb4, 0x98, 0x31, 0xdb, 0x41, 0x15, 0x70, 0xea, 0x1e, 0x0f, 0xbb, 0xed, 0xcd, 0x54, 0x9b,
   0x9a, 0xd0, 0x63, 0xa1, 0x51, 0x97, 0x40, 0x72, 0xf6, 0x75, 0x9d, 0xbf, 0x91, 0x47, 0x6f, 0xe2]]

/-! ### The permutation -/

/-- The number of rows in the state `x[8][2]`. -/
abbrev jhRows : ℕ := 8

/-- A column: one word of each row. -/
abbrev JhColumn := Vector (BitVec 64) jhRows

/-- The state `x[8][2]`, row by row. -/
abbrev JhX := Vector (BitVec 64) (2 * jhRows)

/-- `SWAP1` to `SWAP16`: shift the bits in two masks past each other. -/
def jhSwap (n : ℕ) (low high x : BitVec 64) : BitVec 64 :=
  ((x &&& low) <<< n) ||| ((x &&& high) >>> n)

/-- `SWAP1`. -/
def jhSwap1 (x : BitVec 64) : BitVec 64 := jhSwap 1 0x5555555555555555 0xaaaaaaaaaaaaaaaa x

/-- `SWAP2`. -/
def jhSwap2 (x : BitVec 64) : BitVec 64 := jhSwap 2 0x3333333333333333 0xcccccccccccccccc x

/-- `SWAP4`. -/
def jhSwap4 (x : BitVec 64) : BitVec 64 := jhSwap 4 0x0f0f0f0f0f0f0f0f 0xf0f0f0f0f0f0f0f0 x

/-- `SWAP8`. -/
def jhSwap8 (x : BitVec 64) : BitVec 64 := jhSwap 8 0x00ff00ff00ff00ff 0xff00ff00ff00ff00 x

/-- `SWAP16`. -/
def jhSwap16 (x : BitVec 64) : BitVec 64 := jhSwap 16 0x0000ffff0000ffff 0xffff0000ffff0000 x

/-- `SWAP32`. -/
def jhSwap32 (x : BitVec 64) : BitVec 64 := (x <<< 32) ||| (x >>> 32)

/-- `L`, of the words of a column: `m0` to `m3` are those of the even rows. -/
def jhL (v : JhColumn) : JhColumn :=
  let m4 := v[1] ^^^ v[2]
  let m5 := v[3] ^^^ v[4]
  let m6 := v[5] ^^^ (v[0] ^^^ v[6])
  let m7 := v[7] ^^^ v[0]
  let m0 := v[0] ^^^ m5
  let m1 := v[2] ^^^ m6
  let m2 := v[4] ^^^ (m4 ^^^ m7)
  let m3 := v[6] ^^^ m4
  #v[m0, m4, m1, m5, m2, m6, m3, m7]

/-- One of the two S-boxes in `SS`, on words of any width. -/
def jhSbox {w : ℕ} (m0 m1 m2 m3 cc : BitVec w) : Fin 4 → BitVec w :=
  let m3 := ~~~m3
  let m0 := m0 ^^^ (~~~m2 &&& cc)
  let temp := cc ^^^ (m0 &&& m1)
  let m0 := m0 ^^^ (m2 &&& m3)
  let m3 := m3 ^^^ (~~~m1 &&& m2)
  let m1 := m1 ^^^ (m0 &&& m2)
  let m2 := m2 ^^^ (m0 &&& ~~~m3)
  let m0 := m0 ^^^ (m1 ||| m3)
  let m3 := m3 ^^^ (m1 &&& m2)
  let m1 := m1 ^^^ (temp &&& m0)
  let m2 := m2 ^^^ temp
  ![m0, m1, m2, m3]

/-- `SS`: an S-box on the even rows of a column, and one on the odd rows. -/
def jhSS (v : JhColumn) (cc0 cc1 : BitVec 64) : JhColumn :=
  let a := jhSbox v[0] v[2] v[4] v[6] cc0
  let b := jhSbox v[1] v[3] v[5] v[7] cc1
  #v[a 0, b 0, a 1, b 1, a 2, b 2, a 3, b 3]

/-- The words of a column in the odd rows are swapped. -/
def jhOdd (swap : BitVec 64 → BitVec 64) (v : JhColumn) : JhColumn :=
  #v[v[0], swap v[1], v[2], swap v[3], v[4], swap v[5], v[6], swap v[7]]

/-- The column `i` of the state. -/
def jhColumn (x : JhX) (i : Fin 2) : JhColumn :=
  Vector.ofFn fun j : Fin jhRows => x[2 * (j : ℕ) + i]

/-- The state with two columns. -/
def jhJoin (a b : JhColumn) : JhX :=
  Vector.ofFn fun k : Fin (2 * jhRows) => if (k : ℕ) % 2 = 0 then a[(k : ℕ) / 2] else b[(k : ℕ) / 2]

/-- The constant of a round, `((uint64*)E8_bitslice_roundconstant[r])[i]`. -/
def jhConstant (r i : ℕ) : BitVec 64 := load64 (memOf (e8BitsliceRoundconstant.getD r [])) (8 * i)

/-- A round on both columns. -/
def jhRound (r : ℕ) (swap : BitVec 64 → BitVec 64) (x : JhX) : JhX :=
  let column i := jhOdd swap (jhL (jhSS (jhColumn x i) (jhConstant r i) (jhConstant r (i + 2))))
  jhJoin (column 0) (column 1)

/-- The swapping layer of the seventh round: the odd rows swap their words. -/
def jhSwapRows (x : JhX) : JhX :=
  Vector.ofFn fun k : Fin (2 * jhRows) =>
    if (k : ℕ) / 2 % 2 = 0 then x[k] else x[2 * ((k : ℕ) / 2) + (1 - (k : ℕ) % 2)]

/-- The body of the loop of `E8`. -/
def jhRounds (x : JhX) (roundnumber : ℕ) : JhX :=
  let x := jhRound (roundnumber + 0) jhSwap1 x
  let x := jhRound (roundnumber + 1) jhSwap2 x
  let x := jhRound (roundnumber + 2) jhSwap4 x
  let x := jhRound (roundnumber + 3) jhSwap8 x
  let x := jhRound (roundnumber + 4) jhSwap16 x
  let x := jhRound (roundnumber + 5) jhSwap32 x
  let x := jhRound (roundnumber + 6) id x
  jhSwapRows x

/-- `E8`, and `cn_jh_E8`. -/
def jhE8 (x : JhX) : JhX := [0, 7, 14, 21, 28, 35].foldl jhRounds x

/-- The message block goes into the first half of the state. -/
def jhXorFirst (x : JhX) (buffer : ByteMem) : JhX :=
  Vector.ofFn fun k : Fin (2 * jhRows) =>
    if (k : ℕ) < 8 then x[k] ^^^ load64 buffer (8 * k) else x[k]

/-- It goes into the second half. -/
def jhXorSecond (x : JhX) (buffer : ByteMem) : JhX :=
  Vector.ofFn fun k : Fin (2 * jhRows) =>
    if (k : ℕ) < 8 then x[k] else x[k] ^^^ load64 buffer (8 * (k - 8))

/-- `F8`, and `cn_jh_F8`, with the block in `buffer`. -/
def jhF8 (x : JhX) (buffer : ByteMem) : JhX := jhXorSecond (jhE8 (jhXorFirst x buffer)) buffer

/-! ### The functions -/

/-- `hashState`. -/
structure JhState where
  /-- The size of the digest, in bits. -/
  hashbitlen : ℕ
  /-- The size of the message, in bits. -/
  databitlen : ℕ
  /-- The number of bits in the buffer. -/
  datasizeInBuffer : ℕ
  /-- The state of 1024 bits. -/
  x : JhX
  /-- The buffer. -/
  buffer : ByteMem

/-- The bytes of `x`. -/
def jhBytes (x : JhX) : ByteMem := fun q => (x.getD (q / 8) 0).extractLsb' (8 * (q % 8)) 8

/-- The state with the initial value `h0`. -/
def jhLoad (h0 : List (BitVec 8)) : JhX :=
  Vector.ofFn fun k : Fin (2 * jhRows) => load64 (memOf h0) (8 * k)

/-- `Init`, and `cn_jh_init`; for other sizes of a digest it leaves the state as it is. -/
def jhInit (S : JhState) (hashbitlen : ℕ) : JhState :=
  { S with
    databitlen := 0
    datasizeInBuffer := 0
    hashbitlen := hashbitlen
    x :=
      match hashbitlen with
      | 224 => jhLoad jh224H0
      | 256 => jhLoad jh256H0
      | 384 => jhLoad jh384H0
      | 512 => jhLoad jh512H0
      | _ => S.x }

/-- The body of the loop over the full blocks in `Update`. -/
def jhTakeBlock (data : ByteMem) (S : JhState) (index : ℕ) : JhState :=
  let buffer := storeBytes S.buffer 0 (bytes data index 64)
  { S with x := jhF8 S.x buffer, buffer := buffer }

/-- The loop over the full blocks in `Update`. -/
def jhBlocks (data : ByteMem) (S : JhState) (index databitlen : ℕ) : JhState × ℕ × ℕ :=
  if databitlen ≥ 512 then
    jhBlocks data (jhTakeBlock data S index) (index + 64) (databitlen - 512)
  else (S, index, databitlen)
termination_by databitlen
decreasing_by omega

/-- The end of `Update`: the partial block goes to the buffer. -/
def jhKeep (data : ByteMem) (s : JhState × ℕ × ℕ) : JhState :=
  if s.2.2 > 0 then
    { s.1 with
      buffer :=
        if s.2.2 &&& 7 = 0 then
          storeBytes s.1.buffer 0 (bytes data s.2.1 ((s.2.2 &&& 0x1ff) >>> 3))
        else storeBytes s.1.buffer 0 (bytes data s.2.1 (((s.2.2 &&& 0x1ff) >>> 3) + 1))
      datasizeInBuffer := s.2.2 }
  else s.1

/-- `Update`, and `cn_jh_update`: `databitlen` is a number of bits; `none` is a write behind the
64 bytes of the buffer. -/
def jhUpdate (S : JhState) (data : ByteMem) (p databitlen : ℕ) : Option JhState :=
  let S := { S with databitlen := (S.databitlen + databitlen) % 2 ^ 64 }
  let left := S.datasizeInBuffer >>> 3
  -- the first two branches exclude each other
  if S.datasizeInBuffer > 0 ∧ (S.datasizeInBuffer + databitlen) % 2 ^ 64 < 512 then
    let n := if databitlen &&& 7 = 0 then 64 - left else 64 - left + 1
    if left + n ≤ 64 then
      some (jhKeep data (jhBlocks data { S with
        buffer := storeBytes S.buffer left (bytes data p n)
        datasizeInBuffer := (S.datasizeInBuffer + databitlen) % 2 ^ 64 } p 0))
    else none
  else if S.datasizeInBuffer > 0 ∧ (S.datasizeInBuffer + databitlen) % 2 ^ 64 ≥ 512 then
    let buffer := storeBytes S.buffer left (bytes data p (64 - left))
    some (jhKeep data (jhBlocks data { S with
      x := jhF8 S.x buffer
      buffer := buffer
      datasizeInBuffer := 0 } (p + (64 - left)) (databitlen - (512 - S.datasizeInBuffer))))
  else some (jhKeep data (jhBlocks data S p databitlen))

/-- The length in the last eight bytes of a block. -/
def jhStoreLength (buffer : ByteMem) (databitlen : ℕ) : ByteMem :=
  storeBytes buffer 56 (bigEndian64 (BitVec.ofNat 64 databitlen))

/-- `Final`, and `cn_jh_final`: the state. -/
def jhFinalX (S : JhState) : JhX :=
  if S.databitlen &&& 0x1ff = 0 then
    let buffer := storeBytes S.buffer 0 (List.replicate 64 0)
    let buffer := storeBytes buffer 0 [0x80]
    jhF8 S.x (jhStoreLength buffer S.databitlen)
  else
    let last := (S.databitlen &&& 0x1ff) >>> 3
    let i := if S.datasizeInBuffer &&& 7 = 0 then last else last + 1
    let buffer := storeBytes S.buffer i (List.replicate (64 - i) 0)
    let buffer := storeBytes buffer last
      [buffer last ||| (1 : BitVec 8) <<< (7 - (S.databitlen &&& 7))]
    let x := jhF8 S.x buffer
    let buffer := storeBytes buffer 0 (List.replicate 64 0)
    jhF8 x (jhStoreLength buffer S.databitlen)

/-- The digest at the end of a state. -/
def jhTruncate (hashbitlen : ℕ) (x : JhX) : List (BitVec 8) :=
  match hashbitlen with
  | 224 => bytes (jhBytes x) (64 + 36) 28
  | 256 => bytes (jhBytes x) (64 + 32) 32
  | 384 => bytes (jhBytes x) (64 + 16) 48
  | 512 => bytes (jhBytes x) 64 64
  | _ => []

/-- `Final`, and `cn_jh_final`. -/
def jhFinal (S : JhState) : List (BitVec 8) := jhTruncate S.hashbitlen (jhFinalX S)

/-- `jh_hash`, whose state is on the stack and holds `garbage`; `none` is `BAD_HASHLEN`. -/
def jhHash (garbage : JhState) (hashbitlen : ℕ) (data : ByteMem) (p databitlen : ℕ) :
    Option (List (BitVec 8)) :=
  if hashbitlen = 224 ∨ hashbitlen = 256 ∨ hashbitlen = 384 ∨ hashbitlen = 512 then
    (jhUpdate (jhInit garbage hashbitlen) data p databitlen).map jhFinal
  else none

/-- The S-boxes of JH. -/
def jhS (c : Bool) (a : BitVec 4) : BitVec 4 :=
  (if c then [3, 12, 6, 13, 5, 7, 1, 9, 15, 2, 0, 4, 11, 10, 14, 8]
    else [9, 0, 4, 11, 13, 12, 3, 15, 1, 10, 2, 6, 7, 5, 8, 14]).getD a.toNat 0

/-- The element that bit `k` of four words makes up. -/
def jhElement {w : ℕ} (v : Fin 4 → BitVec w) (k : ℕ) : BitVec 4 :=
  BitVec.ofBool ((v 0).getLsbD k) ++ BitVec.ofBool ((v 1).getLsbD k) ++
    BitVec.ofBool ((v 2).getLsbD k) ++ BitVec.ofBool ((v 3).getLsbD k)

/-- **Each bit goes through one of the two S-boxes**, which its bit of the constant selects. -/
theorem jhSbox_bit {w k : ℕ} (hk : k < w) (m0 m1 m2 m3 cc : BitVec w) :
    jhElement (jhSbox m0 m1 m2 m3 cc) k
      = jhS (cc.getLsbD k) (jhElement ![m0, m1, m2, m3] k) := by
  simp only [jhElement, jhSbox, Matrix.cons_val, BitVec.getLsbD_xor, BitVec.getLsbD_and,
    BitVec.getLsbD_or, BitVec.getLsbD_not, hk, decide_true, Bool.true_and]
  generalize m0.getLsbD k = b0, m1.getLsbD k = b1, m2.getLsbD k = b2, m3.getLsbD k = b3,
    cc.getLsbD k = c
  revert b0 b1 b2 b3 c
  decide

theorem jhS_injective (c : Bool) : Function.Injective (jhS c) := by
  revert c
  unfold Function.Injective
  decide

theorem ofBool_append_inj {a b c d a' b' c' d' : Bool}
    (h : BitVec.ofBool a ++ BitVec.ofBool b ++ BitVec.ofBool c ++ BitVec.ofBool d
      = BitVec.ofBool a' ++ BitVec.ofBool b' ++ BitVec.ofBool c' ++ BitVec.ofBool d') :
    a = a' ∧ b = b' ∧ c = c' ∧ d = d' := by
  revert a b c d a' b' c' d'
  decide

/-- Four words are the elements that their bits make up. -/
theorem eq_of_jhElement {w : ℕ} {v v' : Fin 4 → BitVec w}
    (h : ∀ k < w, jhElement v k = jhElement v' k) : v = v' := by
  have hbits := fun k hk => ofBool_append_inj (h k hk)
  refine funext fun i => BitVec.eq_of_getLsbD_eq fun k hk => ?_
  obtain ⟨h0, h1, h2, h3⟩ := hbits k hk
  fin_cases i
  exacts [h0, h1, h2, h3]

theorem jhSbox_injective {w : ℕ} {m0 m1 m2 m3 n0 n1 n2 n3 cc : BitVec w}
    (h : jhSbox m0 m1 m2 m3 cc = jhSbox n0 n1 n2 n3 cc) :
    ![m0, m1, m2, m3] = ![n0, n1, n2, n3] := by
  refine eq_of_jhElement fun k hk => jhS_injective (cc.getLsbD k) ?_
  rw [← jhSbox_bit hk, ← jhSbox_bit hk, h]

/-! ### The permutation is one -/

theorem jhSwap_jhSwap {n : ℕ} {low high : BitVec 64} (hhigh : low <<< n = high)
    (hlow : high >>> n = low) (hcompl : ~~~low = high) (x : BitVec 64) :
    jhSwap n low high (jhSwap n low high x) = x := by
  have hup (i : ℕ) : low.getLsbD i = high.getLsbD (n + i) := by rw [← hlow]; simp
  have hdown (i : ℕ) (hi : i < 64) (hn : n ≤ i) : high.getLsbD i = low.getLsbD (i - n) := by
    rw [← hhigh]
    simp only [BitVec.getLsbD_shiftLeft, hi, Nat.not_lt.mpr hn, decide_true, decide_false,
      Bool.not_false, Bool.true_and]
  have hlt (i : ℕ) (hi : i < n) : high.getLsbD i = false := by rw [← hhigh]; simp [hi]
  have hnot (i : ℕ) (hi : i < 64) : high.getLsbD i = !low.getLsbD i := by
    rw [← hcompl]; simp [hi]
  refine BitVec.eq_of_getLsbD_eq fun i hi => ?_
  simp only [jhSwap, BitVec.getLsbD_or, BitVec.getLsbD_shiftLeft, BitVec.getLsbD_and,
    BitVec.getLsbD_ushiftRight, hi, decide_true, Bool.true_and]
  cases hli : low.getLsbD i with
  | true =>
    -- the bit went up, and comes down
    have hhi : high.getLsbD (n + i) = true := by rw [← hup, hli]
    have hlt' : n + i < 64 := BitVec.lt_of_getLsbD hhi
    have hnext : high.getLsbD (n + (n + i)) = false := by
      rw [← hup]; simpa [hhi] using hnot (n + i) hlt'
    have hfirst : n ≤ i → low.getLsbD (i - n) = false := by
      intro hn
      rw [← hdown i hi hn]; simp [hnot i hi, hli]
    by_cases hn : n ≤ i
    · simp [hhi, hlt', hnext, hfirst hn, hli]
    · simp [hhi, hlt', hnext, hli, Nat.not_le.mp hn]
  | false =>
    have hhi : high.getLsbD i = true := by simp [hnot i hi, hli]
    have hn : n ≤ i := by
      by_contra hn
      simp [hlt i (Nat.not_le.mp hn)] at hhi
    have hlow' : low.getLsbD (i - n) = true := by rw [← hdown i hi hn, hhi]
    have hnext : n ≤ i - n → low.getLsbD (i - n - n) = false := by
      intro hn'
      rw [← hdown (i - n) (by omega) hn']; simp [hnot (i - n) (by omega), hlow']
    have hback : n + (i - n) = i := by omega
    rw [← hup i, hli]
    by_cases hn' : n ≤ i - n
    · simp [hn, hlow', hnext hn', hback, hhi]
    · simp [hn, hlow', Nat.not_le.mp hn', hback, hhi]

theorem jhSwap32_jhSwap32 (x : BitVec 64) : jhSwap32 (jhSwap32 x) = x := by
  refine BitVec.eq_of_getLsbD_eq fun i hi => ?_
  have hge : x.getLsbD (32 + (32 + i)) = false := BitVec.getLsbD_of_ge x _ (by omega)
  simp only [jhSwap32, BitVec.getLsbD_or, BitVec.getLsbD_shiftLeft, BitVec.getLsbD_ushiftRight, hge]
  rcases Nat.lt_or_ge i 32 with h | h
  · have h' : 32 + i < 64 := by omega
    simp [h, h']
  · have h' : ¬ 32 + i < 64 := by omega
    have h'' : i - 32 < 32 := by omega
    have hback : 32 + (i - 32) = i := by omega
    simp [hi, h', h'', hback, Nat.not_lt.mpr h]

/-- `L` undone. -/
def jhLInverse (m : JhColumn) : JhColumn :=
  let v0 := m[0] ^^^ m[3]
  let v2 := m[2] ^^^ m[5]
  let v4 := m[4] ^^^ (m[1] ^^^ m[7])
  let v6 := m[6] ^^^ m[1]
  #v[v0, m[1] ^^^ v2, v2, m[3] ^^^ v4, v4, m[5] ^^^ (v0 ^^^ v6), v6, m[7] ^^^ v0]

theorem jhLInverse_jhL (v : JhColumn) : jhLInverse (jhL v) = v := by
  refine Vector.ext fun i (hi : i < 8) => BitVec.eq_of_getLsbD_eq fun k hk => ?_
  interval_cases i <;>
    simp only [jhLInverse, jhL, Vector.getElem_mk, List.getElem_toArray, List.getElem_cons_zero,
      List.getElem_cons_succ, BitVec.getLsbD_xor]
  all_goals
    cases v[0].getLsbD k <;> cases v[3].getLsbD k <;> cases v[4].getLsbD k <;> simp

theorem jhL_injective : Function.Injective jhL :=
  Function.LeftInverse.injective jhLInverse_jhL

theorem jhSS_injective (cc0 cc1 : BitVec 64) : Function.Injective (jhSS · cc0 cc1) := by
  intro v w h
  have row (i : Fin 8) : (jhSS v cc0 cc1)[i] = (jhSS w cc0 cc1)[i] :=
    congrArg (fun u : JhColumn => u[i]) h
  have heven : jhSbox v[0] v[2] v[4] v[6] cc0 = jhSbox w[0] w[2] w[4] w[6] cc0 := by
    funext i
    fin_cases i
    exacts [row 0, row 2, row 4, row 6]
  have hodd : jhSbox v[1] v[3] v[5] v[7] cc1 = jhSbox w[1] w[3] w[5] w[7] cc1 := by
    funext i
    fin_cases i
    exacts [row 1, row 3, row 5, row 7]
  have even := congrFun (jhSbox_injective heven)
  have odd := congrFun (jhSbox_injective hodd)
  refine Vector.ext fun i (hi : i < 8) => ?_
  interval_cases i
  exacts [even 0, odd 0, even 1, odd 1, even 2, odd 2, even 3, odd 3]

theorem jhOdd_involutive {swap : BitVec 64 → BitVec 64} (hswap : Function.Involutive swap) :
    Function.Involutive (jhOdd swap) := by
  intro v
  refine Vector.ext fun i (hi : i < 8) => ?_
  interval_cases i <;> simp [jhOdd, hswap _]

theorem jhColumn_jhJoin_zero (a b : JhColumn) : jhColumn (jhJoin a b) 0 = a := by
  refine Vector.ext fun i hi => ?_
  simp [jhColumn, jhJoin]

theorem jhColumn_jhJoin_one (a b : JhColumn) : jhColumn (jhJoin a b) 1 = b := by
  refine Vector.ext fun i hi => ?_
  have h : (2 * i + 1) / 2 = i := by omega
  simp [jhColumn, jhJoin, h]

theorem jhJoin_jhColumn (x : JhX) : jhJoin (jhColumn x 0) (jhColumn x 1) = x := by
  refine Vector.ext fun i hi => ?_
  rcases Nat.mod_two_eq_zero_or_one i with h | h
  · have : 2 * (i / 2) = i := by omega
    simp [jhColumn, jhJoin, h, this]
  · have : 2 * (i / 2) + 1 = i := by omega
    simp [jhColumn, jhJoin, h, this]

theorem jhRound_injective (r : ℕ) {swap : BitVec 64 → BitVec 64}
    (hswap : Function.Involutive swap) : Function.Injective (jhRound r swap) := by
  intro x y h
  have column (i : Fin 2) : Function.Injective fun v : JhColumn =>
      jhOdd swap (jhL (jhSS v (jhConstant r i) (jhConstant r (i + 2)))) :=
    ((jhOdd_involutive hswap).injective.comp jhL_injective).comp (jhSS_injective _ _)
  have h0 := congrArg (jhColumn · 0) h
  have h1 := congrArg (jhColumn · 1) h
  simp only [jhRound, jhColumn_jhJoin_zero, jhColumn_jhJoin_one] at h0 h1
  rw [← jhJoin_jhColumn x, ← jhJoin_jhColumn y, column 0 h0, column 1 h1]

theorem jhSwapRows_involutive : Function.Involutive jhSwapRows := by
  intro x
  refine Vector.ext fun i hi => ?_
  have hdiv : (2 * (i / 2) + (1 - i % 2)) / 2 = i / 2 := by omega
  have hback : 2 * (i / 2) + (1 - (1 - i % 2) % 2) = i := by omega
  by_cases h : i / 2 % 2 = 0
  · simp [jhSwapRows, h]
  · simp [jhSwapRows, h, hdiv, hback]

theorem jhRounds_injective (roundnumber : ℕ) :
    Function.Injective (jhRounds · roundnumber) := by
  have swap1 : Function.Involutive jhSwap1 := jhSwap_jhSwap (by decide) (by decide) (by decide)
  have swap2 : Function.Involutive jhSwap2 := jhSwap_jhSwap (by decide) (by decide) (by decide)
  have swap4 : Function.Involutive jhSwap4 := jhSwap_jhSwap (by decide) (by decide) (by decide)
  have swap8 : Function.Involutive jhSwap8 := jhSwap_jhSwap (by decide) (by decide) (by decide)
  have swap16 : Function.Involutive jhSwap16 := jhSwap_jhSwap (by decide) (by decide) (by decide)
  intro x y h
  replace h := jhSwapRows_involutive.injective h
  replace h := jhRound_injective _ (fun _ => rfl) h
  replace h := jhRound_injective _ jhSwap32_jhSwap32 h
  replace h := jhRound_injective _ swap16 h
  replace h := jhRound_injective _ swap8 h
  replace h := jhRound_injective _ swap4 h
  replace h := jhRound_injective _ swap2 h
  exact jhRound_injective _ swap1 h

theorem foldl_injective {α β : Type*} {f : α → β → α} (hf : ∀ b, Function.Injective (f · b))
    (l : List β) : Function.Injective (l.foldl f) := by
  induction l with
  | nil => exact Function.injective_id
  | cons b l ih => exact ih.comp (hf b)

instance : Finite JhX :=
  Finite.of_injective (fun (x : JhX) (i : Fin 16) => x[i].toFin) fun x y h =>
    Vector.ext fun i hi => BitVec.eq_of_toFin_eq (congrFun h ⟨i, hi⟩)

/-- **The permutation is one**: the 42 rounds lose nothing of the state. -/
theorem jhE8_bijective : Function.Bijective jhE8 :=
  Finite.injective_iff_bijective.mp (foldl_injective jhRounds_injective _)

/-! ### The buffer -/

section Stream

variable {S : JhState} {x₀ : JhX} {D H t : ℕ} {msg : List (BitVec 8)} {last : BitVec 8}

/-- The state after `msg`, which is a number of full blocks. -/
def jhChain (x₀ : JhX) (msg : List (BitVec 8)) : JhX :=
  (blocks 64 msg).foldl (fun x b => jhF8 x (memOf b)) x₀

theorem load64_memOf_bytes (buffer : ByteMem) {k : ℕ} (hk : k < 8) :
    load64 (memOf (bytes buffer 0 64)) (8 * k) = load64 buffer (8 * k) :=
  load64_congr fun i hi => by rw [memOf_bytes buffer 0 (by omega), Nat.zero_add]

/-- The compression function looks at 64 bytes. -/
theorem jhF8_memOf (x : JhX) (buffer : ByteMem) :
    jhF8 x buffer = jhF8 x (memOf (bytes buffer 0 64)) := by
  have hfirst : jhXorFirst x buffer = jhXorFirst x (memOf (bytes buffer 0 64)) := by
    refine Vector.ext fun k hk => ?_
    rw [jhXorFirst, jhXorFirst, Vector.getElem_ofFn, Vector.getElem_ofFn]
    split
    · next h => rw [load64_memOf_bytes buffer h]
    · rfl
  have hsecond (y : JhX) : jhXorSecond y buffer = jhXorSecond y (memOf (bytes buffer 0 64)) := by
    refine Vector.ext fun k (hk : k < 16) => ?_
    rw [jhXorSecond, jhXorSecond, Vector.getElem_ofFn, Vector.getElem_ofFn]
    split
    · rfl
    · next h => rw [load64_memOf_bytes buffer (k := k - 8) (by omega)]
  rw [jhF8, jhF8, hfirst, hsecond]

/-- The state when full blocks have been compressed. -/
structure JhState.Chained (S : JhState) (x₀ : JhX) (D H : ℕ) (msg : List (BitVec 8)) : Prop where
  /-- The state of 1024 bits. -/
  x : S.x = jhChain x₀ msg
  /-- The size of the message is that of the caller. -/
  databitlen : S.databitlen = D
  /-- The size of the digest is that of the caller. -/
  hashbitlen : S.hashbitlen = H
  /-- The buffer is empty. -/
  datasizeInBuffer : S.datasizeInBuffer = 0

/-- The state when a message has been put in: bytes, and `t` bits of a last one. -/
structure JhState.Absorbed (S : JhState) (x₀ : JhX) (D H : ℕ) (msg : List (BitVec 8)) (t : ℕ)
    (last : BitVec 8) : Prop where
  /-- The full blocks are compressed. -/
  x : S.x = jhChain x₀ msg
  /-- The size of the message. -/
  databitlen : S.databitlen = D
  /-- The size of the digest. -/
  hashbitlen : S.hashbitlen = H
  /-- The bits of the rest are counted, -/
  datasizeInBuffer : S.datasizeInBuffer = 8 * (msg.length % 64) + t
  /-- it is in the buffer, -/
  buffer : bytes S.buffer 0 (msg.length % 64) = rest 64 msg
  /-- and behind it is the last byte. -/
  last : t ≠ 0 → S.buffer (msg.length % 64) = last

theorem jhChain_concat (hmsg : 64 ∣ msg.length) {b : List (BitVec 8)} (hb : b.length = 64) :
    jhChain x₀ (msg ++ b) = jhF8 (jhChain x₀ msg) (memOf b) := by
  rw [jhChain, blocks_append (by decide) hmsg, blocks_self (by decide) hb, List.foldl_concat,
    jhChain]

theorem jhChain_append_of_lt (hmsg : 64 ∣ msg.length) {b : List (BitVec 8)} (hb : b.length < 64) :
    jhChain x₀ (msg ++ b) = jhChain x₀ msg := by
  rw [jhChain, blocks_append (by decide) hmsg, blocks_of_lt hb, List.append_nil, jhChain]

theorem bytes_storeBytes_zero (m data : ByteMem) (p : ℕ) {n k : ℕ} (hn : n ≤ k) :
    bytes (storeBytes m 0 (bytes data p k)) 0 n = bytes data p n := by
  have h := bytes_storeBytes_bytes m data 0 p hn
  rwa [Nat.zero_add] at h

/-- **A step of the loop** takes one more block. -/
theorem JhState.Chained.step (hmsg : 64 ∣ msg.length) (h : S.Chained x₀ D H msg) (data : ByteMem)
    (p : ℕ) : (jhTakeBlock data S p).Chained x₀ D H (msg ++ bytes data p 64) := by
  rw [jhTakeBlock]
  refine ⟨?_, h.databitlen, h.hashbitlen, h.datasizeInBuffer⟩
  dsimp only
  rw [jhF8_memOf, bytes_storeBytes_zero _ _ _ le_rfl, h.x,
    jhChain_concat hmsg (length_bytes data p 64)]

/-- The loop takes all full blocks. -/
theorem jhBlocks_eq (data : ByteMem) (S : JhState) (p n : ℕ) (ht : t < 8) :
    jhBlocks data S p (8 * n + t)
      = (takeBlocks 64 (jhTakeBlock data) (n / 64) S p, p + 64 * (n / 64), 8 * (n % 64) + t) := by
  refine loop_eq_takeBlocks (fun S p n => jhBlocks data S p (8 * n + t))
    (fun S p n => (S, p, 8 * n + t)) (by decide) (fun S p n hn => ?_)
    (fun S p n hn => ?_) S p n
  · have hbits : 8 * n + t - 512 = 8 * (n - 64) + t := by omega
    rw [jhBlocks, if_pos (by omega), hbits]
  · rw [jhBlocks, if_neg (by omega)]

/-- From an empty buffer on, the loop and what is behind it put the data in. -/
theorem JhState.Chained.keep (hmsg : 64 ∣ msg.length) (h : S.Chained x₀ D H msg) (data : ByteMem)
    (p n : ℕ) (ht : t < 8) :
    (jhKeep data (jhBlocks data S p (8 * n + t))).Absorbed x₀ D H (msg ++ bytes data p n) t
      (data (p + n)) := by
  rw [jhBlocks_eq data S p n ht]
  set T := takeBlocks 64 (jhTakeBlock data) (n / 64) S p
  have hT : T.Chained x₀ D H (msg ++ bytes data p (64 * (n / 64))) :=
    takeBlocks_inv (fun (S : JhState) => S.Chained x₀ D H)
      (fun S p msg hmsg h => h.step hmsg data p)
      (n / 64) p hmsg h
  have hfull : 64 ∣ (msg ++ bytes data p (64 * (n / 64))).length := by
    rw [List.length_append, length_bytes]
    omega
  have hshort : (bytes data (p + 64 * (n / 64)) (n % 64)).length < 64 := by
    rw [length_bytes]
    exact Nat.mod_lt _ (by decide)
  have hsplit : msg ++ bytes data p n = msg ++ bytes data p (64 * (n / 64)) ++
      bytes data (p + 64 * (n / 64)) (n % 64) := by
    rw [List.append_assoc, ← bytes_add, Nat.div_add_mod]
  have hlen : (msg ++ bytes data p n).length % 64 = n % 64 := by
    rw [List.length_append, length_bytes]
    omega
  have hrest : rest 64 (msg ++ bytes data p n) = bytes data (p + 64 * (n / 64)) (n % 64) := by
    rw [hsplit, rest_append (by decide) hfull, rest_of_lt hshort]
  have hx : T.x = jhChain x₀ (msg ++ bytes data p n) := by
    rw [hsplit, jhChain_append_of_lt hfull hshort, hT.x]
  have hand : (8 * (n % 64) + t) &&& 7 = t := by
    rw [Nat.and_two_pow_sub_one_eq_mod _ 3]
    omega
  have hshift : (8 * (n % 64) + t &&& 0x1ff) >>> 3 = n % 64 := by
    rw [Nat.and_two_pow_sub_one_eq_mod _ 9, Nat.shiftRight_eq_div_pow]
    omega
  rw [jhKeep]
  dsimp only
  rw [hand, hshift]
  split
  · next hpos =>
    refine ⟨hx, hT.databitlen, hT.hashbitlen, by rw [hlen], ?_, fun ht => ?_⟩
    · rw [hlen, hrest]
      dsimp only
      split
      · exact bytes_storeBytes_zero _ _ _ le_rfl
      · exact bytes_storeBytes_zero _ _ _ (Nat.le_succ _)
    · rw [hlen]
      dsimp only
      rw [if_neg ht, storeBytes_bytes, if_pos (by omega), Nat.sub_zero, Nat.add_assoc,
        Nat.div_add_mod]
  · next hzero =>
    have hnone : n % 64 = 0 := by omega
    have ht : t = 0 := by omega
    refine ⟨hx, hT.databitlen, hT.hashbitlen, ?_, ?_, fun h => absurd ht h⟩
    · rw [hlen, hnone, hT.datasizeInBuffer, ht]
    · rw [hlen, hrest, hnone]
      rfl

/-! ### A call of `Update` -/

theorem shiftRight_three (r : ℕ) : (8 * r) >>> 3 = r := by
  rw [Nat.shiftRight_eq_div_pow, Nat.mul_div_cancel_left r (by decide)]

theorem jhBlocks_zero (data : ByteMem) (S : JhState) (p : ℕ) :
    jhKeep data (jhBlocks data S p 0) = S := by
  rw [jhBlocks, if_neg (by decide), jhKeep, if_neg (lt_irrefl 0)]

/-- A call of `Update` stays inside the buffer: bytes, and `t` bits of one more, behind a message
of so many bytes. -/
def JhFits (len n t : ℕ) : Prop := t = 0 ∨ len % 64 = 0 ∨ 64 ≤ len % 64 + n

instance (len n t : ℕ) : Decidable (JhFits len n t) :=
  inferInstanceAs (Decidable (_ ∨ _ ∨ _))

theorem and_seven (n : ℕ) (ht : t < 8) : (8 * n + t) &&& 7 = t := by
  rw [Nat.and_two_pow_sub_one_eq_mod _ 3]
  omega

/-- **A call of `Update` appends its data**: bytes, and in the last call `t` bits of one more. -/
theorem JhState.Absorbed.update {b : BitVec 8} (h : S.Absorbed x₀ D H msg 0 b) (data : ByteMem)
    (p n : ℕ) (ht : t < 8) (hlen : 8 * (msg.length % 64) + (8 * n + t) < 2 ^ 64)
    (hfits : JhFits msg.length n t) :
    ∃ S', jhUpdate S data p (8 * n + t) = some S' ∧
      S'.Absorbed x₀ ((D + (8 * n + t)) % 2 ^ 64) H (msg ++ bytes data p n) t (data (p + n)) := by
  have hlt : msg.length % 64 < 64 := Nat.mod_lt _ (by decide)
  have hsize := h.datasizeInBuffer
  rw [Nat.add_zero] at hsize
  have hmod : (8 * (msg.length % 64) + (8 * n + t)) % 2 ^ 64
      = 8 * (msg.length % 64) + (8 * n + t) := Nat.mod_eq_of_lt (by omega)
  -- the full blocks in front of what is in the buffer
  set full := msg.take (64 * (msg.length / 64)) with hfull
  have hmsg : full ++ rest 64 msg = msg := take_append_rest 64 msg
  have hflen : full.length = 64 * (msg.length / 64) :=
    List.length_take_of_le (Nat.mul_div_le _ _)
  have hdvd : 64 ∣ full.length := hflen ▸ Nat.dvd_mul_right 64 _
  have hshort : (rest 64 msg).length < 64 := (length_rest 64 msg).trans_lt hlt
  have hx : S.x = jhChain x₀ full := by
    rw [h.x, ← jhChain_append_of_lt hdvd hshort, hmsg]
  rw [jhUpdate, h.databitlen, hsize, shiftRight_three, hmod]
  dsimp only
  rcases Nat.eq_zero_or_pos (msg.length % 64) with hzero | hpos
  · have hall : full = msg := by
      have hnone : rest 64 msg = [] := List.eq_nil_of_length_eq_zero (by rw [length_rest, hzero])
      rw [← hmsg, hnone, List.append_nil]
    rw [if_neg (by omega), if_neg (by omega)]
    rw [hall] at hx hdvd
    refine ⟨_, rfl, JhState.Chained.keep hdvd ⟨?_, ?_, ?_, ?_⟩ data p n ht⟩ <;> dsimp only
    · exact hx
    · exact h.hashbitlen
    · rw [hzero]
  · by_cases hfill : 64 ≤ msg.length % 64 + n
    · rw [if_neg (by omega), if_pos (by omega)]
      have hbuf := bytes_storeBytes_append S.buffer (msg.length % 64)
        (bytes data p (64 - msg.length % 64))
      rw [length_bytes, Nat.add_sub_cancel' hlt.le, h.buffer] at hbuf
      have hstep : jhF8 S.x
          (storeBytes S.buffer (msg.length % 64) (bytes data p (64 - msg.length % 64)))
          = jhChain x₀ (msg ++ bytes data p (64 - msg.length % 64)) := by
        rw [jhF8_memOf, hbuf, hx, ← jhChain_concat hdvd, ← List.append_assoc, hmsg]
        rw [List.length_append, length_rest, length_bytes]
        omega
      have hblock : 64 ∣ (msg ++ bytes data p (64 - msg.length % 64)).length := by
        rw [List.length_append, length_bytes]
        omega
      have hbits : 8 * n + t - (512 - 8 * (msg.length % 64))
          = 8 * (n - (64 - msg.length % 64)) + t := by omega
      have hkeep := JhState.Chained.keep (S := { S with
        databitlen := (D + (8 * n + t)) % 2 ^ 64
        x := jhF8 S.x (storeBytes S.buffer (msg.length % 64)
          (bytes data p (64 - msg.length % 64)))
        buffer := storeBytes S.buffer (msg.length % 64) (bytes data p (64 - msg.length % 64))
        datasizeInBuffer := 0 }) hblock ⟨hstep, rfl, h.hashbitlen, rfl⟩ data
        (p + (64 - msg.length % 64)) (n - (64 - msg.length % 64)) ht
      have hle : 64 - msg.length % 64 ≤ n := by omega
      rw [List.append_assoc, ← bytes_add, Nat.add_sub_cancel' hle, Nat.add_assoc p,
        Nat.add_sub_cancel' hle] at hkeep
      rw [hbits]
      exact ⟨_, rfl, hkeep⟩
    · have hzero : t = 0 := by
        rcases hfits with hzero | hnone | hfull
        · exact hzero
        · omega
        · exact absurd hfull hfill
      rw [if_pos (by omega), and_seven n ht, if_pos hzero, if_pos (by omega), jhBlocks_zero]
      have hl : (msg ++ bytes data p n).length % 64 = msg.length % 64 + n := by
        rw [List.length_append, length_bytes]
        omega
      have hsum : (rest 64 msg ++ bytes data p n).length < 64 := by
        rw [List.length_append, length_rest, length_bytes]
        omega
      have happ : full ++ (rest 64 msg ++ bytes data p n) = msg ++ bytes data p n := by
        rw [← List.append_assoc, hmsg]
      have hrest : rest 64 (msg ++ bytes data p n) = rest 64 msg ++ bytes data p n := by
        rw [← happ, rest_append (by decide) hdvd, rest_of_lt hsum]
      refine ⟨_, rfl, ?_, rfl, h.hashbitlen, ?_, ?_, fun hbits => absurd hzero hbits⟩
      · rw [← happ, jhChain_append_of_lt hdvd hsum]
        exact hx
      · rw [hl]
        dsimp only
        omega
      · rw [hl, hrest]
        dsimp only
        rw [bytes_storeBytes_bytes _ _ _ _ (by omega), h.buffer]

end Stream

/-! ### The digest -/

/-- The byte behind a message: the `t` bits of a last byte, and a one bit behind them. -/
def jhMarker (t : ℕ) (last : BitVec 8) : BitVec 8 :=
  (last &&& (0xff : BitVec 8) <<< (8 - t)) ||| (1 : BitVec 8) <<< (7 - t)

/-- The bits of the last byte behind the message are zero. -/
def JhTail (t : ℕ) (last : BitVec 8) : Prop := t = 0 ∨ last &&& (0xff : BitVec 8) >>> t = 0

theorem jhMarker_zero (last : BitVec 8) : jhMarker 0 last = 0x80 := by
  have hnone : last &&& (0xff : BitVec 8) <<< (8 - 0) = 0 := BitVec.and_zero
  rw [jhMarker, hnone]
  rfl

/-- There is nothing to take away from the last byte then. -/
theorem JhTail.jhMarker_eq {t : ℕ} {last : BitVec 8} (h : JhTail t last) (ht : t < 8)
    (hpos : t ≠ 0) : jhMarker t last = last ||| (1 : BitVec 8) <<< (7 - t) := by
  have htail : last &&& (0xff : BitVec 8) >>> t = 0 := h.resolve_left hpos
  have hsplit : (0xff : BitVec 8) <<< (8 - t) ||| (0xff : BitVec 8) >>> t = 0xff := by
    interval_cases t <;> decide
  have hkeep : last &&& (0xff : BitVec 8) <<< (8 - t) = last := by
    calc last &&& (0xff : BitVec 8) <<< (8 - t)
        = last &&& (0xff : BitVec 8) <<< (8 - t) ||| last &&& (0xff : BitVec 8) >>> t := by
          rw [htail]
          exact BitVec.or_zero.symm
      _ = last &&& ((0xff : BitVec 8) <<< (8 - t) ||| (0xff : BitVec 8) >>> t) :=
          BitVec.and_or_distrib_left.symm
      _ = last := by
          rw [hsplit]
          exact BitVec.and_allOnes
  rw [jhMarker, hkeep]

/-- What is put behind `len` bytes of a message that has `t` more bits, in `last`: a one bit,
zeros, and the length, in a block without a bit of the message. -/
def jhPad (len t : ℕ) (last : BitVec 8) : List (BitVec 8) :=
  jhMarker t last :: (List.replicate (if (8 * len + t) % 512 = 0 then 55 else 119 - len % 64) 0 ++
    bigEndian64 (BitVec.ofNat 64 (8 * len + t)))

section Final

variable {S : JhState} {x₀ : JhX} {D H t : ℕ} {msg : List (BitVec 8)} {last : BitVec 8}

theorem bytes_jhStoreLength (buffer : ByteMem) (databitlen : ℕ) :
    bytes (jhStoreLength buffer databitlen) 0 64
      = bytes buffer 0 56 ++ bigEndian64 (BitVec.ofNat 64 databitlen) :=
  bytes_storeBytes_append buffer 56 (bigEndian64 (BitVec.ofNat 64 databitlen))

/-- The full blocks of the message are not changed by the padding. -/
theorem jhChain_pad (pad : List (BitVec 8)) {bs : List (List (BitVec 8))}
    (hbs : blocks 64 (rest 64 msg ++ pad) = bs) :
    jhChain x₀ (msg ++ pad) = bs.foldl (fun x b => jhF8 x (memOf b)) (jhChain x₀ msg) := by
  rw [jhChain, blocks_append_rest (by decide), hbs, List.foldl_append, jhChain]

/-- No bit of the message is left: one block. -/
theorem JhState.Absorbed.final_full (h : S.Absorbed x₀ D H msg 0 last)
    (hD : D = 8 * msg.length % 2 ^ 64) (hr : msg.length % 64 = 0) :
    jhFinalX S = jhChain x₀ (msg ++ jhPad msg.length 0 last) := by
  have hand : S.databitlen &&& 0x1ff = 0 := by
    rw [h.databitlen, hD, Nat.and_two_pow_sub_one_eq_mod _ 9]
    omega
  have hlen : BitVec.ofNat 64 S.databitlen = BitVec.ofNat 64 (8 * msg.length) :=
    BitVec.eq_of_toNat_eq (by simp [h.databitlen, hD])
  have hnone : rest 64 msg = [] := List.eq_nil_of_length_eq_zero (by rw [length_rest, hr])
  have hpad : jhPad msg.length 0 last
      = [0x80] ++ List.replicate 55 0 ++ bigEndian64 (BitVec.ofNat 64 (8 * msg.length)) := by
    rw [jhPad, if_pos (by omega), jhMarker_zero, Nat.add_zero, List.append_assoc]
    rfl
  have hfirst := bytes_storeBytes (storeBytes S.buffer 0 (List.replicate 64 0)) 0 [0x80] 55
  rw [List.length_singleton, bytes_zeros _ (by decide) (by decide)] at hfirst
  have hblocks : blocks 64 (rest 64 msg ++ jhPad msg.length 0 last)
      = [jhPad msg.length 0 last] := by
    rw [hnone, List.nil_append]
    exact blocks_self (by decide) (by rw [hpad]; rfl)
  rw [jhFinalX, if_pos hand]
  dsimp only
  rw [jhF8_memOf, bytes_jhStoreLength, hfirst, hlen, h.x, jhChain_pad _ hblocks, hpad]
  rfl

/-- There are more bits of it: they fill one block with the padding, and the length is in
another one. -/
theorem JhState.Absorbed.final_partial
    (h : S.Absorbed x₀ D H msg t last) (hD : D = (8 * msg.length + t) % 2 ^ 64) (ht : t < 8)
    (htail : JhTail t last) (hpos : 8 * (msg.length % 64) + t ≠ 0) :
    jhFinalX S = jhChain x₀ (msg ++ jhPad msg.length t last) := by
  have hlt : msg.length % 64 < 64 := Nat.mod_lt _ (by decide)
  have hand : S.databitlen &&& 0x1ff = 8 * (msg.length % 64) + t := by
    rw [h.databitlen, hD, Nat.and_two_pow_sub_one_eq_mod _ 9]
    omega
  have hbits : S.databitlen &&& 7 = t := by
    rw [h.databitlen, hD, Nat.and_two_pow_sub_one_eq_mod _ 3]
    omega
  have hbuf : 8 * (msg.length % 64) + t &&& 7 = t := by
    rw [Nat.and_two_pow_sub_one_eq_mod _ 3]
    omega
  have hbyte : (8 * (msg.length % 64) + t) >>> 3 = msg.length % 64 := by
    rw [Nat.shiftRight_eq_div_pow]
    omega
  have hlen : BitVec.ofNat 64 S.databitlen = BitVec.ofNat 64 (8 * msg.length + t) :=
    BitVec.eq_of_toNat_eq (by simp [h.databitlen, hD])
  rw [jhFinalX, hand, if_neg hpos, h.datasizeInBuffer, hbuf, hbits, hbyte]
  dsimp only
  set i := if t = 0 then msg.length % 64 else msg.length % 64 + 1 with hi
  have hile : msg.length % 64 ≤ i := by rw [hi]; split <;> omega
  have hige : i ≤ msg.length % 64 + 1 := by rw [hi]; split <;> omega
  set cleared := storeBytes S.buffer i (List.replicate (64 - i) 0) with hcleared
  have hfront : bytes cleared 0 (msg.length % 64) = rest 64 msg := by
    rw [← h.buffer]
    exact bytes_congr fun k hk => by rw [hcleared, storeBytes, if_neg (by omega)]
  have hmarker : cleared (msg.length % 64) ||| (1 : BitVec 8) <<< (7 - t) = jhMarker t last := by
    rcases eq_or_ne t 0 with hzero | hne
    · have hstart := bytes_zeros S.buffer (p := i) (n := 64 - i) (q := msg.length % 64) (k := 1)
        (by rw [hi, if_pos hzero]) (by omega)
      have hbyte : cleared (msg.length % 64) = 0 := List.singleton_inj.mp hstart
      rw [hbyte, hzero, jhMarker_zero]
      rfl
    · have hbyte : cleared (msg.length % 64) = last := by
        rw [← h.last hne, hcleared, storeBytes, if_neg]
        rw [hi, if_neg hne]
        omega
      rw [hbyte, htail.jhMarker_eq ht hne]
  -- the two blocks
  have hfirst := bytes_storeBytes cleared (msg.length % 64) [jhMarker t last]
    (63 - msg.length % 64)
  rw [List.length_singleton, hfront, bytes_zeros _ hige (by omega),
    show msg.length % 64 + 1 + (63 - msg.length % 64) = 64 by omega] at hfirst
  set b₁ := rest 64 msg ++ [jhMarker t last] ++ List.replicate (63 - msg.length % 64) 0 with hb₁
  set b₂ := List.replicate 56 0 ++ bigEndian64 (BitVec.ofNat 64 (8 * msg.length + t)) with hb₂
  have hlen₁ : b₁.length = 64 := by
    rw [hb₁, List.length_append, List.length_append, List.length_replicate, length_rest,
      List.length_singleton]
    omega
  have hlen₂ : b₂.length = 64 := rfl
  have hpad : rest 64 msg ++ jhPad msg.length t last = b₁ ++ b₂ := by
    have hzeros : 119 - msg.length % 64 = 63 - msg.length % 64 + 56 := by omega
    rw [jhPad, if_neg (by omega), hzeros, List.replicate_add, hb₁, hb₂]
    simp only [List.append_assoc, List.cons_append, List.nil_append]
  have hblocks : blocks 64 (rest 64 msg ++ jhPad msg.length t last) = [b₁, b₂] := by
    rw [hpad, blocks_cons (by decide) hlen₁, blocks_self (by decide) hlen₂]
  rw [hmarker, jhF8_memOf, bytes_jhStoreLength, bytes_zeros _ (le_refl 0) (by decide), hlen,
    jhF8_memOf S.x, hfirst, h.x, jhChain_pad _ hblocks]
  rfl

/-- **The end of a hash**: the state when the padded message has been put in. -/
theorem JhState.Absorbed.final (h : S.Absorbed x₀ D H msg t last)
    (hD : D = (8 * msg.length + t) % 2 ^ 64) (ht : t < 8) (htail : JhTail t last) :
    jhFinalX S = jhChain x₀ (msg ++ jhPad msg.length t last) := by
  by_cases hzero : 8 * (msg.length % 64) + t = 0
  · obtain rfl : t = 0 := by omega
    exact h.final_full hD (by omega)
  · exact h.final_partial hD ht htail hzero

end Final

/-- The initial state, `JH224_H0` to `JH512_H0`. -/
def jhH0 (hashbitlen : ℕ) : Option (List (BitVec 8)) :=
  match hashbitlen with
  | 224 => some jh224H0
  | 256 => some jh256H0
  | 384 => some jh384H0
  | 512 => some jh512H0
  | _ => none

theorem jhH0_ne_none (hashbitlen : ℕ) : jhH0 hashbitlen ≠ none ↔
    hashbitlen = 224 ∨ hashbitlen = 256 ∨ hashbitlen = 384 ∨ hashbitlen = 512 := by
  unfold jhH0
  split <;> simp_all

theorem jhInit_absorbed (garbage : JhState) {hashbitlen : ℕ} {h0 : List (BitVec 8)}
    (hh0 : jhH0 hashbitlen = some h0) :
    (jhInit garbage hashbitlen).Absorbed (jhLoad h0) 0 hashbitlen [] 0 0 := by
  refine ⟨?_, rfl, rfl, rfl, rfl, fun h => absurd rfl h⟩
  unfold jhH0 at hh0
  split at hh0 <;> first | cases hh0; rfl | cases hh0

/-- The digest of a message of bytes, and `t` bits of a last one. -/
def jhDigest (hashbitlen : ℕ) (h0 msg : List (BitVec 8)) (t : ℕ) (last : BitVec 8) :
    List (BitVec 8) :=
  jhTruncate hashbitlen (jhChain (jhLoad h0) (msg ++ jhPad msg.length t last))

/-- **A hash is the fold over the padded message**, of any number of bits. -/
theorem jhHash_eq (garbage : JhState) (hashbitlen : ℕ) (data : ByteMem) (p : ℕ)
    (databitlen : BitVec 64)
    (htail : JhTail (databitlen.toNat % 8) (data (p + databitlen.toNat / 8))) :
    jhHash garbage hashbitlen data p databitlen.toNat = (jhH0 hashbitlen).map fun h0 =>
      jhDigest hashbitlen h0 (bytes data p (databitlen.toNat / 8)) (databitlen.toNat % 8)
        (data (p + databitlen.toNat / 8)) := by
  set n := databitlen.toNat / 8 with hn
  set t := databitlen.toNat % 8 with ht
  have hbits : databitlen.toNat = 8 * n + t := (Nat.div_add_mod _ 8).symm
  have hlt : 8 * n + t < 2 ^ 64 := hbits ▸ databitlen.isLt
  rw [hbits]
  cases hh0 : jhH0 hashbitlen with
  | none =>
    rw [jhHash, if_neg fun h => (jhH0_ne_none hashbitlen).mpr h hh0]
    rfl
  | some h0 =>
    have hsize := (jhH0_ne_none hashbitlen).mp (by rw [hh0]; exact Option.some_ne_none h0)
    obtain ⟨S, hS, hput⟩ := (jhInit_absorbed garbage hh0).update data p n
      (Nat.mod_lt _ (by decide)) (by simpa using hlt) (Or.inr (Or.inl rfl))
    rw [List.nil_append, Nat.zero_add] at hput
    have hlen : (bytes data p n).length = n := length_bytes data p n
    have hfinal := hput.final (by rw [hlen]) (Nat.mod_lt _ (by decide)) htail
    rw [jhHash, if_pos hsize, hS, Option.map_some, jhFinal, hput.hashbitlen, hfinal]
    rfl

end XmrMiner
